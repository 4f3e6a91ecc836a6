import InterBit.Lib.Settling
import InterBit.Dex.LiquidityAggregator

/-!
# Quotes of stable pools

`calculate_d` and `calculate_y` in whole numbers. The rounds of `calculate_d` stay between one and
the sum of the reserves (`stepD_bounds`), those of `calculate_y` are Newton's for a quadratic
equation (`rootStep`). So nothing underflows, and the quotes are monotone and below the reserve.

But the value that `calculate_d` settles on has little to do with the sum of the reserves. From 198
of each token on it is at most one of them (`valueD_le`), and a pool pays more than it gets.
-/

namespace InterBit.Dex.LiquidityAggregator

open InterBit.Lib Panicking

variable {fits : Prop}

/-- The loop is `settle`, and the first round has been possible. -/
theorem iterate_gives {next : U256 → Panicking (Option U256)} {f : Nat → Nat} {P Q : Nat → Prop}
    (hnext : ∀ v : U256, P v.toNat → Gives fits (next v) fun r =>
      ∃ w : U256, r = some w ∧ w.toNat = f v.toNat ∧ Q v.toNat)
    (hstep : ∀ v, P v → P (f v)) :
    ∀ (n : Nat) (v : U256), P v.toNat → Gives fits (iterate next n v) fun w =>
      w.toNat = settle f n v.toNat ∧ (0 < n → Q v.toNat) := by
  intro n
  induction n with
  | zero => exact fun v _ => gives_pure ⟨rfl, fun h => absurd h (Nat.lt_irrefl 0)⟩
  | succ n ih =>
    intro v hv
    refine (hnext v hv).bind fun r hr => ?_
    obtain ⟨w, rfl, hw, hfirst⟩ := hr
    have hmoved : Gives fits (distance w v) fun m =>
        m.toNat ≤ 1 ↔ f v.toNat ≤ v.toNat + 1 ∧ v.toNat ≤ f v.toNat + 1 := by
      unfold distance
      split
      next hlt =>
        have hlt := BitVec.lt_def.mp hlt
        refine (gives_sub hlt.le).mono fun m hm => ?_
        omega
      next hge =>
        have hge := Nat.le_of_not_lt fun h => hge (BitVec.lt_def.mpr h)
        refine (gives_sub hge).mono fun m hm => ?_
        omega
    refine hmoved.bind fun m hm => ?_
    have hone : m ≤ 1 ↔ m.toNat ≤ 1 := BitVec.le_def
    rw [settle]
    by_cases hclose : f v.toNat ≤ v.toNat + 1 ∧ v.toNat ≤ f v.toNat + 1
    · rw [if_pos (hone.mpr (hm.mpr hclose)), if_pos hclose]
      exact gives_pure ⟨hw, fun _ => hfirst⟩
    · rw [if_neg fun h => hclose (hm.mp (hone.mp h)), if_neg hclose, ← hw]
      exact (ih w (hw ▸ hstep _ hv)).mono fun u hu => ⟨hu.1, fun _ => hfirst⟩

/-! ### The invariant -/

/-- A round of `calculate_d`. -/
def stepD (sum d : Nat) : Nat := (d * d * d + 100 * sum * sum) / (2 * (d * d) + 100 * sum - d)

/-- `calculate_d` of a positive sum. -/
def valueD (sum : Nat) : Nat := settle (stepD sum) 255 sum

/-- The largest number of `calculate_d` is in its first round. -/
def FitsD (sum : Nat) : Prop := sum * sum * sum + 100 * sum * sum < 2 ^ 256

theorem le_square (d : Nat) : d ≤ 2 * (d * d) := by
  nlinarith only [Nat.le_self_pow (two_ne_zero) d]

theorem stepD_bounds {sum d : Nat} (hsum : 2 ≤ sum) (h : 1 ≤ d ∧ d ≤ sum) :
    1 ≤ stepD sum d ∧ stepD sum d ≤ sum := by
  have hsquare := le_square d
  obtain ⟨hd, hle⟩ := h
  obtain ⟨t, rfl⟩ := Nat.exists_eq_add_of_le hd
  obtain ⟨s, rfl⟩ := Nat.exists_eq_add_of_le hle
  have hden : 2 * ((1 + t) * (1 + t)) + 100 * (1 + t + s) - (1 + t)
      = 101 + 103 * t + 2 * (t * t) + 100 * s := by
    have hring : 2 * ((1 + t) * (1 + t)) + 100 * (1 + t + s)
        = (101 + 103 * t + 2 * (t * t) + 100 * s) + (1 + t) := by ring
    omega
  rw [stepD, hden]
  constructor
  · refine (Nat.le_div_iff_mul_le (by omega)).mpr ?_
    nlinarith only [hsum, Nat.zero_le t, Nat.zero_le s, Nat.zero_le (t * t * t)]
  · refine Nat.div_le_of_le_mul ?_
    nlinarith only [hsum, Nat.zero_le t, Nat.zero_le s, Nat.zero_le (t * t * t),
      Nat.zero_le (t * t * s), Nat.zero_le (t * s)]

theorem FitsD.lt {sum : Nat} (h : FitsD sum) : sum < 2 ^ 86 := by
  by_contra! hge
  have hcube : 2 ^ 86 * 2 ^ 86 * 2 ^ 86 ≤ sum * sum * sum :=
    Nat.mul_le_mul (Nat.mul_le_mul hge hge) hge
  rw [FitsD] at h
  omega

/-- Then every product of the step fits. -/
theorem FitsD.step {sum d : Nat} (h : FitsD sum) (hd : d ≤ sum) :
    d * d * d + 100 * sum * sum < 2 ^ 256 ∧ 2 * (d * d) + 100 * sum < 2 ^ 256 := by
  have hcube : d * d * d ≤ sum * sum * sum := Nat.mul_le_mul (Nat.mul_le_mul hd hd) hd
  have hlt := h.lt
  have hsquare : d * d ≤ 2 ^ 86 * 2 ^ 86 := Nat.mul_le_mul (hd.trans hlt.le) (hd.trans hlt.le)
  rw [FitsD] at h
  omega

/-- A step of the code is a step on numbers, or panics with an overflow. -/
theorem nextD_gives {sum d : U256} (hd : 1 ≤ d.toNat ∧ d.toNat ≤ sum.toNat) :
    Gives (FitsD sum.toNat) (nextD sum 100 d) fun r =>
      ∃ w : U256, r = some w ∧ w.toNat = stepD sum.toNat d.toNat ∧
        d.toNat * d.toNat * d.toNat + 100 * sum.toNat * sum.toNat < 2 ^ 256 := by
  -- every intermediate result is a summand of the numerator or of the denominator
  have hfits := fun h : FitsD sum.toNat => h.step hd.2
  have hle := le_square d.toNat
  refine (gives_mul fun h => ?_).bind fun dSquared hdSquared => ?_
  · have hsmall := (hfits h).2
    omega
  refine (gives_mul fun h => ?_).bind fun dCubed hdCubed => ?_
  · have hsmall := (hfits h).1
    rw [hdSquared]
    omega
  refine (gives_mul fun h => ?_).bind fun ampSum hampSum => ?_
  · have hsmall := (hfits h).2
    exact Nat.lt_of_le_of_lt (Nat.le_add_left ..) hsmall
  refine (gives_mul fun h => ?_).bind fun ampSumSquared hampSumSquared => ?_
  · have hsmall := (hfits h).1
    rw [hampSum]
    exact Nat.lt_of_le_of_lt (Nat.le_add_left ..) hsmall
  refine (gives_add fun h => ?_).bind fun numerator hnumerator => ?_
  · rw [hdCubed, hdSquared, hampSumSquared, hampSum]
    exact (hfits h).1
  refine (gives_mul fun h => ?_).bind fun doubled hdoubled => ?_
  · have hsmall := (hfits h).2
    rw [hdSquared]
    exact Nat.lt_of_le_of_lt (Nat.le_add_right ..) hsmall
  refine (gives_mul fun h => ?_).bind fun ampSum' hampSum' => ?_
  · have hsmall := (hfits h).2
    exact Nat.lt_of_le_of_lt (Nat.le_add_left ..) hsmall
  refine (gives_add fun h => ?_).bind fun total htotal => ?_
  · rw [hdoubled, hdSquared, hampSum']
    exact (hfits h).2
  have htotal : total.toNat = 2 * (d.toNat * d.toNat) + 100 * sum.toNat := by
    rw [htotal, hdoubled, hdSquared, hampSum']
    rfl
  refine (gives_sub (by omega)).bind fun denominator hdenominator => ?_
  have hpos : 0 < denominator.toNat := by omega
  rw [if_neg fun h => by rw [h] at hpos; exact Nat.lt_irrefl 0 hpos]
  refine (gives_div hpos).bind fun w hw => gives_pure ⟨w, rfl, ?_, ?_⟩
  · rw [hw, hnumerator, hdenominator, htotal, hdCubed, hdSquared, hampSumSquared, hampSum]
    rfl
  · rw [hdCubed, hdSquared, hampSumSquared, hampSum] at hnumerator
    exact (congrArg (· < 2 ^ 256) hnumerator).mp numerator.isLt

/-- `calculate_d` for positive reserves. -/
theorem calculateD_gives {x y : U256} (hx : 0 < x.toNat) (hy : 0 < y.toNat) :
    Gives (FitsD (x.toNat + y.toNat)) (calculateD x y 100) fun d =>
      d.toNat = valueD (x.toNat + y.toNat) ∧ FitsD (x.toNat + y.toNat) := by
  refine (gives_add fun h => ?_).bind fun sum hsum => ?_
  · have hsmall := h.lt
    omega
  have hzero : sum ≠ 0 := by
    intro h
    rw [h, show (0 : U256).toNat = 0 from rfl] at hsum
    omega
  rw [← hsum, if_neg hzero]
  refine (iterate_gives (P := fun d => 1 ≤ d ∧ d ≤ sum.toNat)
    (Q := fun d => d * d * d + 100 * sum.toNat * sum.toNat < 2 ^ 256) (fun d hd => nextD_gives hd)
    (fun d hd => stepD_bounds (by omega) hd) 255 sum ⟨by omega, le_rfl⟩).mono fun d hd => ?_
  exact ⟨hd.1, hd.2 (by decide)⟩

theorem valueD_bounds {sum : Nat} (hsum : 2 ≤ sum) : 1 ≤ valueD sum ∧ valueD sum ≤ sum :=
  settle_invariant (P := fun d => 1 ≤ d ∧ d ≤ sum) (fun _ => stepD_bounds hsum) 255
    ⟨by omega, le_rfl⟩

/-! ### The new reserve -/

/-- The invariant without the part that `amp` divides off. -/
def base (d : Nat) : Nat := d - d / 100

/-- The part of the new reserve that gets smaller as the other reserve gets larger. -/
def excess (x d : Nat) : Nat := d * d / (2 * x)

/-- `calculate_y` of a positive reserve. -/
def valueY (x d : Nat) : Nat := settle (rootStep (base d) (excess x d)) 255 d

theorem base_bounds {d : Nat} (hd : 1 ≤ d) : 0 < base d ∧ base d ≤ d ∧ d ≤ 2 * base d := by
  unfold base
  omega

theorem excess_le {x : Nat} (hx : 0 < x) (d : Nat) : 2 * excess x d ≤ d * d := by
  have hle : excess x d * (2 * x) ≤ d * d := Nat.div_mul_le_self ..
  nlinarith only [hle, hx, Nat.zero_le (excess x d)]

/-- Twice the invariant is a bound of all rounds of `calculate_y`. -/
theorem rootStep_le_double {x d y : Nat} (hx : 0 < x) (hd : 1 ≤ d)
    (hy : base d ≤ y ∧ y ≤ 2 * d) :
    base d ≤ rootStep (base d) (excess x d) y ∧ rootStep (base d) (excess x d) y ≤ 2 * d := by
  obtain ⟨hpos, hle, hhalf⟩ := base_bounds hd
  refine ⟨le_rootStep hpos hy.1, rootStep_le hpos hy.1 hy.2 ?_⟩
  nlinarith only [excess_le hx d, hle, hhalf, hpos]

theorem nextY_gives {x d y : U256} (hx : 0 < x.toNat) (hd : 1 ≤ d.toNat)
    (hy : base d.toNat ≤ y.toNat ∧ y.toNat ≤ 2 * d.toNat) :
    Gives (d.toNat < 2 ^ 86 ∧ x.toNat < 2 ^ 255) (nextY x d 100 y) fun r =>
      ∃ w : U256, r = some w ∧
        w.toNat = rootStep (base d.toNat) (excess x.toNat d.toNat) y.toNat ∧ True := by
  obtain ⟨hpos, hle, hhalf⟩ := base_bounds hd
  -- below `2 ^ 86` both squares fit
  have hsquares : d.toNat < 2 ^ 86 →
      d.toNat * d.toNat ≤ 2 ^ 172 ∧ y.toNat * y.toNat ≤ 2 ^ 174 := by
    intro h
    exact ⟨(Nat.mul_le_mul h.le h.le).trans (by decide),
      (Nat.mul_le_mul (show y.toNat ≤ 2 ^ 87 by omega) (show y.toNat ≤ 2 ^ 87 by omega)).trans
        (by decide)⟩
  have hexcess := excess_le hx d.toNat
  refine (gives_mul fun h => ?_).bind fun ySquared hySquared => ?_
  · have hsmall := (hsquares h.1).2
    omega
  refine (gives_mul fun h => ?_).bind fun dSquared hdSquared => ?_
  · have hsmall := (hsquares h.1).1
    omega
  refine (gives_mul fun h => ?_).bind fun doubledX hdoubledX => ?_
  · show 2 * x.toNat < _
    omega
  have hdoubledX : doubledX.toNat = 2 * x.toNat := hdoubledX
  refine (gives_div (by omega)).bind fun quotient hquotient => ?_
  have hquotient : quotient.toNat = excess x.toNat d.toNat := by
    rw [hquotient, hdSquared, hdoubledX]
    rfl
  refine (gives_add fun h => ?_).bind fun numerator hnumerator => ?_
  · have hsmall := hsquares h.1
    omega
  refine (gives_mul fun h => ?_).bind fun doubledY hdoubledY => ?_
  · show 2 * y.toNat < _
    omega
  have hdoubledY : doubledY.toNat = 2 * y.toNat := hdoubledY
  refine (gives_div (by decide)).bind fun dPart hdPart => ?_
  have hdPart : dPart.toNat = d.toNat / 100 := hdPart
  refine (gives_add fun h => ?_).bind fun total htotal => ?_
  · omega
  -- `d - d / 100`, so that the denominator is twice `y` less the base
  have hbase : d.toNat = base d.toNat + d.toNat / 100 := by
    unfold base
    omega
  refine (gives_sub (by omega)).bind fun denominator hdenominator => ?_
  have hdenominator : denominator.toNat = 2 * y.toNat - base d.toNat := by omega
  have hpositive : 0 < denominator.toNat := by omega
  rw [if_neg fun h => by rw [h] at hpositive; exact Nat.lt_irrefl 0 hpositive]
  refine (gives_div hpositive).bind fun w hw => gives_pure ⟨w, rfl, ?_, trivial⟩
  rw [hw, hnumerator, hdenominator, hySquared, hquotient]
  rfl

/-- `calculate_y` for a positive reserve and a positive invariant. -/
theorem calculateY_gives {x d : U256} (hx : 0 < x.toNat) (hd : 1 ≤ d.toNat) :
    Gives (d.toNat < 2 ^ 86 ∧ x.toNat < 2 ^ 255) (calculateY x d 100) fun y =>
      y.toNat = valueY x.toNat d.toNat := by
  obtain ⟨_, hle, _⟩ := base_bounds hd
  refine (iterate_gives (P := fun y => base d.toNat ≤ y ∧ y ≤ 2 * d.toNat) (Q := fun _ => True)
    (fun y hy => nextY_gives hx hd hy) (fun y hy => rootStep_le_double hx hd hy) 255 d
    ⟨hle, by omega⟩).mono fun y hy => hy.1

theorem base_le_valueY {x d : Nat} (hx : 0 < x) (hd : 1 ≤ d) : base d ≤ valueY x d := by
  obtain ⟨_, hle, _⟩ := base_bounds hd
  exact (settle_invariant (P := fun y => base d ≤ y ∧ y ≤ 2 * d)
    (fun _ => rootStep_le_double hx hd) 255 ⟨hle, by omega⟩).1

theorem valueY_nearRoot {x d : Nat} (hx : 0 < x) (hd : 1 ≤ d) (hlt : d < 2 ^ 86) :
    NearRoot (base d) (excess x d) (valueY x d) := by
  obtain ⟨hpos, hle, _⟩ := base_bounds hd
  refine settle_nearRoot hpos hle 253 ?_
  have hsmall := (rootStep_le_double hx hd ⟨hle, (by omega : d ≤ 2 * d)⟩).2
  omega

/-- The more there is of the one token, the less is needed of the other. -/
theorem valueY_antitone {x x' d : Nat} (hx : 0 < x) (hxx' : x ≤ x') (hd : 1 ≤ d)
    (hlt : d < 2 ^ 86) : valueY x' d ≤ valueY x d := by
  have hexcess : excess x' d ≤ excess x d := Nat.div_le_div_left (by omega) (by omega)
  rcases Nat.eq_or_lt_of_le hexcess with heq | hless
  · rw [valueY, valueY, heq]
  · exact (valueY_nearRoot (hx.trans_le hxx') hd hlt).mono (valueY_nearRoot hx hd hlt) hless

/-! ### Equal reserves -/

/-- From below, a round of `calculate_d` never goes below a bound like this. -/
theorem le_stepD {sum low d : Nat} (hsum : 2 ≤ sum) (hlow : low ≤ sum)
    (hbound : 32 * low * low * low ≤ 2700 * sum * (sum - low)) (hd : 1 ≤ d) :
    low ≤ stepD sum d := by
  have hsquare := le_square d
  rw [stepD]
  refine (Nat.le_div_iff_mul_le (by omega)).mpr ?_
  obtain ⟨s, rfl⟩ := Nat.exists_eq_add_of_le hlow
  rw [Nat.add_sub_cancel_left] at hbound
  refine (Nat.mul_le_mul_left low (Nat.sub_le ..)).trans ?_
  zify at *
  -- The cubic polynomial in `d` has its minimum at four thirds of the bound.
  have hcubic : (0 : ℤ) ≤ (3 * d - 4 * low) * (3 * d - 4 * low) * (3 * d + 2 * low) :=
    mul_nonneg (mul_self_nonneg _) (by positivity)
  nlinarith only [hcubic, hbound]

/-- Above the bound, a round of `calculate_d` goes half of the way down to a half of the sum. -/
theorem stepD_half {R d : Nat} (hR : 1 ≤ R) (hlow : 300 * R ≤ d * d) (hd : 2 ≤ d) :
    2 * stepD (2 * R) d ≤ d + (R - 1) := by
  have hsquare := le_square d
  have hle : stepD (2 * R) d * (2 * (d * d) + 100 * (2 * R) - d)
      ≤ d * d * d + 100 * (2 * R) * (2 * R) := Nat.div_mul_le_self ..
  generalize stepD (2 * R) d = q at hle ⊢
  by_contra! hgt
  have hmul := Nat.mul_le_mul_right (2 * (d * d) + 100 * (2 * R) - d)
    (show d + R ≤ 2 * q by omega)
  zify [show d ≤ 2 * (d * d) + 100 * (2 * R) by omega] at *
  have hwide : (0 : ℤ) ≤ (2 * R - 1) * (d * d - 300 * R) :=
    mul_nonneg (by omega) (by omega)
  have hfar : (0 : ℤ) ≤ R * (d - 2) := mul_nonneg (by omega) (by omega)
  nlinarith only [hmul, hle, hwide, hfar, hR]

/-- The bound for reserves that are not small. -/
theorem low_bound {sum r : Nat} (hr : 458 ≤ r) (hle : r * r ≤ 150 * sum) :
    32 * (r + 1) * (r + 1) * (r + 1) ≤ 2700 * sum * (sum - (r + 1)) := by
  obtain ⟨t, rfl⟩ := Nat.exists_eq_add_of_le hr
  have hdiff : 140914 + 766 * t + t * t ≤ 150 * sum - 150 * (458 + t + 1) := by
    have hsquare : (458 + t) * (458 + t) = 209764 + 916 * t + t * t := by ring
    omega
  have hmul := Nat.mul_le_mul hle hdiff
  have hpoly : 720000 * ((458 + t + 1) * (458 + t + 1) * (458 + t + 1))
      ≤ 2700 * ((458 + t) * (458 + t) * (140914 + 766 * t + t * t)) := by
    nlinarith only [Nat.zero_le t, Nat.zero_le (t * t), Nat.zero_le (t * t * t),
      Nat.zero_le (t * t * t * t)]
  have hscale : 150 * sum * (150 * sum - 150 * (458 + t + 1))
      = 22500 * (sum * (sum - (458 + t + 1))) := by
    rw [← Nat.mul_sub]
    ring
  rw [hscale] at hmul
  have hassoc : 2700 * sum * (sum - (458 + t + 1)) = 2700 * (sum * (sum - (458 + t + 1))) :=
    Nat.mul_assoc ..
  have hassoc' : 32 * (458 + t + 1) * (458 + t + 1) * (458 + t + 1)
      = 32 * ((458 + t + 1) * (458 + t + 1) * (458 + t + 1)) := by ring
  omega

/-- For reserves of 198 and more, the invariant is at most one of the reserves. -/
theorem valueD_le {R : Nat} (hR : 198 ≤ R) (hlt : 2 * R < 2 ^ 86) : valueD (2 * R) ≤ R := by
  rcases Nat.lt_or_ge R 700 with hsmall | hlarge
  · have hcheck : ∀ R < 700, 198 ≤ R → valueD (2 * R) ≤ R := by decide +kernel
    exact hcheck R hsmall hR
  have hroot : 458 ≤ Nat.sqrt (300 * R) := Nat.le_sqrt.mpr (by omega)
  have hle : Nat.sqrt (300 * R) * Nat.sqrt (300 * R) ≤ 300 * R := Nat.sqrt_le _
  have hgt : 300 * R < (Nat.sqrt (300 * R) + 1) * (Nat.sqrt (300 * R) + 1) :=
    Nat.lt_succ_sqrt _
  generalize Nat.sqrt (300 * R) = r at hroot hle hgt
  have hbelow : r + 1 ≤ 2 * R := by nlinarith only [hle, hroot]
  have hstep : ∀ d, r + 1 ≤ d → r + 1 ≤ stepD (2 * R) d := fun d hd =>
    le_stepD (by omega) hbelow (low_bound hroot (by omega)) (by omega)
  have hhalf : ∀ d, r + 1 ≤ d → 2 * stepD (2 * R) d ≤ d + (R - 1) := fun d hd =>
    stepD_half (by omega) (hgt.le.trans (Nat.mul_le_mul hd hd)) (by omega)
  exact (settle_le hstep hhalf 255 hbelow (by omega)).trans (by omega)

/-- For smaller reserves it is at least one of the reserves, or almost. -/
theorem le_base_valueD {R least : Nat} (hR : 1 ≤ R) (hleast : least ≤ 1)
    (hlt : R < 198 + 2 * least) : R ≤ base (valueD (2 * R)) + least := by
  have hcheck : ∀ least < 2, ∀ R < 198 + 2 * least, 1 ≤ R → R ≤ base (valueD (2 * R)) + least := by
    decide +kernel
  exact hcheck least (by omega) R hlt hR

/-- For larger reserves, a pool pays more than it gets for an amount of nothing, or of one. -/
theorem valueY_lt {R least : Nat} (hleast : least ≤ 1) (hR : 198 + 2 * least ≤ R)
    (hlt : 2 * R < 2 ^ 86) : valueY (R + least) (valueD (2 * R)) + least < R := by
  have hd := (valueD_bounds (show 2 ≤ 2 * R by omega)).1
  have hle := valueD_le (show 198 ≤ R by omega) hlt
  generalize valueD (2 * R) = d at hd hle
  obtain ⟨_, hsquare, _⟩ := @valueY_nearRoot (R + least) d (by omega) hd (by omega)
  have hexcess : 2 * excess (R + least) d ≤ R := by
    have hdiv : excess (R + least) d * (2 * (R + least)) ≤ d * d := Nat.div_mul_le_self ..
    have hmul : d * d ≤ R * R := Nat.mul_le_mul hle hle
    refine Nat.le_of_mul_le_mul_right ?_ (show 0 < R by omega)
    nlinarith only [hdiv, hmul, Nat.zero_le (excess (R + least) d * least)]
  have hbase : base d + 1 + least ≤ R := by
    unfold base
    omega
  generalize valueY (R + least) d = y at hsquare ⊢
  by_contra! hge
  -- At such a reserve the left side of the equation is too large by far.
  have hmul : (base d + 1) * y ≤ y * y := Nat.mul_le_mul_right y (by omega)
  rw [Nat.add_mul, Nat.one_mul] at hmul
  omega

/-! ### The quote -/

/-- What a stable pool pays for an amount, the fee off. -/
def payment (reserveB newReserveB : Nat) : Nat :=
  (reserveB - newReserveB) - (reserveB - newReserveB) * 4 / 10000

variable {aggregator : LiquidityAggregator} {pool : PoolInfo} {source : LiquiditySource}

/-- The new reserve of a stable pool. -/
def newReserve (source : LiquiditySource) (amountIn : Nat) : Nat :=
  valueY (source.reserveA.toNat + amountIn)
    (valueD (source.reserveA.toNat + source.reserveB.toNat))

/-- What a quote of a stable pool says. -/
structure StableQuote (source : LiquiditySource) (amountIn : Nat)
    (result : Except RoutingError SwapOutput) : Prop where
  fits : FitsD (source.reserveA.toNat + source.reserveB.toNat)
  refused : source.reserveB.toNat ≤ newReserve source amountIn →
    result = .error .insufficientLiquidity
  paid : newReserve source amountIn < source.reserveB.toNat →
    ∃ out, result = .ok out ∧
      out.1.toNat = payment source.reserveB.toNat (newReserve source amountIn)

/-- What a quote is, if nothing overflows. -/
theorem stableQuote (hsource : aggregator.getLiquiditySource pool.address = .ok source)
    (hA : 0 < source.reserveA.toNat) (hB : 0 < source.reserveB.toNat) (amountIn : U256) :
    Gives (FitsD (source.reserveA.toNat + source.reserveB.toNat) ∧
        source.reserveA.toNat + amountIn.toNat < 2 ^ 255)
      (aggregator.calculateStableSwapOutput pool amountIn) (StableQuote source amountIn.toNat) := by
  rw [calculateStableSwapOutput, hsource]
  refine ((calculateD_gives hA hB).imp fun h => h.1).bind fun d hd => ?_
  obtain ⟨hd, hfits⟩ := hd
  have hbounds := valueD_bounds
    (show 2 ≤ source.reserveA.toNat + source.reserveB.toNat by omega)
  have hlt := hfits.lt
  rw [← hd] at hbounds
  refine (gives_add fun h => ?_).bind fun newReserveA hnewA => ?_
  · omega
  refine ((calculateY_gives (show 0 < newReserveA.toNat by omega) hbounds.1).imp
    fun h => ⟨by omega, hnewA ▸ h.2⟩).bind fun newReserveB hnewB => ?_
  have hnewB : newReserveB.toNat = newReserve source amountIn.toNat := by
    rw [hnewB, hnewA, hd]
    rfl
  -- the code pays nothing where the new reserve is not below the old one
  by_cases hle : source.reserveB ≤ newReserveB
  · have hle' := BitVec.le_def.mp hle
    rw [if_pos hle]
    exact gives_pure ⟨hfits, fun _ => rfl, fun hless => absurd hless (by omega)⟩
  · have hless : newReserveB.toNat < source.reserveB.toNat :=
      Nat.lt_of_not_le fun h => hle (BitVec.le_def.mpr h)
    rw [if_neg hle]
    refine (gives_sub hless.le).bind fun amountOut hamountOut => ?_
    refine (gives_mul fun h => ?_).bind fun scaled hscaled => ?_
    · show amountOut.toNat * 4 < _
      omega
    refine (gives_div (by decide)).bind fun fee hfee => ?_
    have hscaled : scaled.toNat = amountOut.toNat * 4 := hscaled
    have hfee : fee.toNat = scaled.toNat / 10000 := hfee
    refine (gives_sub (by omega)).bind fun out hout =>
      gives_pure ⟨hfits, fun hge => ?_, fun _ => ?_⟩
    · omega
    · refine ⟨_, rfl, ?_⟩
      rw [payment, ← hnewB, ← hamountOut]
      show out.toNat = _
      rw [hout, hfee, hscaled]

/-- Nothing but an overflow goes wrong, and what is paid grows with the amount, is below the
reserve, and is at most the amount if the reserves are equal; for all amounts from `least` on. -/
structure SaneQuotes (aggregator : LiquidityAggregator) (pool : PoolInfo)
    (source : LiquiditySource) (least : Nat) : Prop where
  defined : ∀ (amountIn : U256) (cause : PanicCause), least ≤ amountIn.toNat →
    aggregator.calculateStableSwapOutput pool amountIn = .error cause → cause = .overflow
  monotone : ∀ (amountIn amountIn' : U256) (out : SwapOutput), least ≤ amountIn.toNat →
    amountIn.toNat ≤ amountIn'.toNat →
    aggregator.calculateStableSwapOutput pool amountIn = .ok (.ok out) →
    aggregator.calculateStableSwapOutput pool amountIn' = .error .overflow ∨
      ∃ out', aggregator.calculateStableSwapOutput pool amountIn' = .ok (.ok out') ∧
        out.1.toNat ≤ out'.1.toNat
  below : ∀ (amountIn : U256) (out : SwapOutput), least ≤ amountIn.toNat →
    aggregator.calculateStableSwapOutput pool amountIn = .ok (.ok out) →
    out.1.toNat < source.reserveB.toNat
  fair : source.reserveA = source.reserveB →
    ∀ (amountIn : U256) (out : SwapOutput), least ≤ amountIn.toNat →
      aggregator.calculateStableSwapOutput pool amountIn = .ok (.ok out) →
      out.1.toNat ≤ amountIn.toNat

theorem payment_mono {reserveB y y' : Nat} (h : y ≤ y') :
    payment reserveB y' ≤ payment reserveB y := by
  unfold payment
  omega

/-- A quote that is paid is the payment for the new reserve. -/
theorem StableQuote.eq {amountIn : Nat} {out : SwapOutput}
    (h : StableQuote source amountIn (.ok out)) :
    newReserve source amountIn < source.reserveB.toNat ∧
      out.1.toNat = payment source.reserveB.toNat (newReserve source amountIn) := by
  have hlt : newReserve source amountIn < source.reserveB.toNat := by
    by_contra! hge
    cases h.refused hge
  obtain ⟨out', heq, hout⟩ := h.paid hlt
  cases heq
  exact ⟨hlt, hout⟩

theorem base_le_newReserve (hA : 0 < source.reserveA.toNat) (hB : 0 < source.reserveB.toNat)
    (amountIn : Nat) :
    base (valueD (source.reserveA.toNat + source.reserveB.toNat)) ≤ newReserve source amountIn :=
  base_le_valueY (by omega) (valueD_bounds (by omega)).1

/-- Nothing but the payment for equal reserves depends on how large the reserves are. -/
theorem saneQuotes_of_fair
    (hsource : aggregator.getLiquiditySource pool.address = .ok source)
    (hA : 0 < source.reserveA.toNat) (hB : 0 < source.reserveB.toNat) {least : Nat}
    (hfair : source.reserveA = source.reserveB →
      FitsD (source.reserveA.toNat + source.reserveB.toNat) → ∀ amountIn, least ≤ amountIn →
        payment source.reserveB.toNat (newReserve source amountIn) ≤ amountIn) :
    SaneQuotes aggregator pool source least where
  defined amountIn _ _ herror := (stableQuote hsource hA hB amountIn).overflow herror
  monotone amountIn amountIn' out _ hle hok := by
    have hquote := (hok ▸ stableQuote hsource hA hB amountIn).of_ok
    have hd := valueD_bounds (show 2 ≤ source.reserveA.toNat + source.reserveB.toNat by omega)
    have hless : newReserve source amountIn'.toNat ≤ newReserve source amountIn.toNat :=
      valueY_antitone (by omega) (by omega) hd.1 (hd.2.trans_lt hquote.fits.lt)
    rcases stableQuote hsource hA hB amountIn' with ⟨result, hresult, hquote'⟩ | ⟨herror, _⟩
    · obtain ⟨out', rfl, hout'⟩ := hquote'.paid (hless.trans_lt hquote.eq.1)
      refine Or.inr ⟨out', hresult, ?_⟩
      rw [hquote.eq.2, hout']
      exact payment_mono hless
    · exact Or.inl herror
  below amountIn out _ hok := by
    have hquote := (hok ▸ stableQuote hsource hA hB amountIn).of_ok
    have hd := valueD_bounds (show 2 ≤ source.reserveA.toNat + source.reserveB.toNat by omega)
    have hpos := (base_bounds hd.1).1.trans_le (base_le_newReserve hA hB amountIn.toNat)
    rw [hquote.eq.2, payment]
    omega
  fair heq amountIn out hleast hok := by
    have hquote := (hok ▸ stableQuote hsource hA hB amountIn).of_ok
    rw [hquote.eq.2]
    exact hfair heq hquote.fits _ hleast

/-- The quotes of a stable pool are sane exactly if the reserves are different or very small, or
the invariant overflows. It makes a difference for 198 and 199 only whether one may ask for
nothing. -/
theorem stable_quotes_sane_iff
    (hsource : aggregator.getLiquiditySource pool.address = .ok source)
    (hA : 0 < source.reserveA.toNat) (hB : 0 < source.reserveB.toNat)
    {least : Nat} (hleast : least ≤ 1) :
    SaneQuotes aggregator pool source least ↔
      (source.reserveA = source.reserveB → source.reserveA.toNat < 198 + 2 * least ∨
        2 ^ 256 ≤ (2 * source.reserveA.toNat) ^ 3 + 100 * (2 * source.reserveA.toNat) ^ 2) := by
  have hsum : source.reserveA = source.reserveB →
      source.reserveA.toNat + source.reserveB.toNat = 2 * source.reserveA.toNat := by
    intro heq
    rw [← heq, Nat.two_mul]
  have hfits : source.reserveA = source.reserveB →
      (FitsD (source.reserveA.toNat + source.reserveB.toNat) ↔
        (2 * source.reserveA.toNat) ^ 3 + 100 * (2 * source.reserveA.toNat) ^ 2 < 2 ^ 256) := by
    intro heq
    rw [hsum heq, FitsD]
    ring_nf
  constructor
  · intro h heq
    -- outside the condition the least amount is already paid too much
    by_contra! hno
    have hFits := (hfits heq).mpr hno.2
    have hlt := hFits.lt
    have hamount : (BitVec.ofNat 256 least : U256).toNat = least := by
      rw [BitVec.toNat_ofNat, Nat.mod_eq_of_lt (by omega)]
    obtain ⟨result, hok, hquote⟩ := (stableQuote hsource hA hB (BitVec.ofNat 256 least)).exists_ok
      ⟨hFits, by omega⟩
    have hless : newReserve source least + least < source.reserveA.toNat := by
      rw [newReserve, hsum heq]
      exact valueY_lt hleast hno.1 (hsum heq ▸ hlt)
    rw [hamount] at hquote
    obtain ⟨out, rfl, hout⟩ := hquote.paid (heq ▸ by omega)
    have hfair := h.fair heq _ out (by rw [hamount]) hok
    rw [hout, hamount, payment, ← heq] at hfair
    omega
  · intro h
    -- only the fairness of equal reserves is in question
    refine saneQuotes_of_fair hsource hA hB fun heq hFits amountIn hamount => ?_
    have hsmall := (h heq).resolve_right (Nat.not_le_of_lt ((hfits heq).mp hFits))
    have hbase := base_le_newReserve hA hB amountIn
    have hnear := le_base_valueD hA hleast hsmall
    rw [hsum heq] at hbase
    rw [payment, ← heq]
    omega

/-- A pool with a million of each token pays 927580 for one. -/
theorem stable_quote_exceeds_amount :
    (sampleAggregator 1000000 1000000).calculateStableSwapOutput (samplePool .stableSwap) 1
        = .ok (.ok (927580, 371, (1000000, 1000000))) ∧
      ¬ SaneQuotes (sampleAggregator 1000000 1000000) (samplePool .stableSwap)
        ⟨1000000, 1000000⟩ 1 := by
  have hquote : (sampleAggregator 1000000 1000000).calculateStableSwapOutput
      (samplePool .stableSwap) 1
      = .ok (.ok (927580, 371, (1000000, 1000000))) := by decide +kernel
  refine ⟨hquote, fun h => ?_⟩
  exact absurd (h.fair rfl 1 _ (by decide) hquote) (by decide)

/-- The quotes for a million and for two million are sane. -/
theorem stable_quotes_sane_sample :
    SaneQuotes (sampleAggregator 1000000 2000000) (samplePool .stableSwap)
      ⟨1000000, 2000000⟩ 0 := by
  have hsource : (sampleAggregator 1000000 2000000).getLiquiditySource
      (samplePool .stableSwap).address
      = .ok ⟨1000000, 2000000⟩ := by decide +kernel
  exact (stable_quotes_sane_iff hsource (by decide) (by decide) (by decide)).mpr
    fun h => absurd h (by decide)

end InterBit.Dex.LiquidityAggregator
