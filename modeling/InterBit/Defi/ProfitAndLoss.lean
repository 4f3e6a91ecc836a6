import InterBit.Defi.OpenInterest

/-!
# Amounts that fit into `i128`

The engine of the perpetual contracts casts the values of positions to `i128`. As long as every
number on the way fits, the result of each operation is the number that it stands for, whether
or not the build has overflow checks.
-/

namespace InterBit.Defi

/-- The number is an `i128`. -/
def InI128 (v : Int) : Prop := -2 ^ 127 ≤ v ∧ v < 2 ^ 127

instance (v : Int) : Decidable (InI128 v) := inferInstanceAs (Decidable (_ ∧ _))

/-! ### One operation -/

theorem signed_of_fits (env : Env) {overflow : Bool} {result : I128} (h : overflow = false) :
    signed env overflow result = some result := by
  rw [signed, h, Bool.and_false]
  rfl

theorem addI128_exact (env : Env) {a b : I128} (h : InI128 (a.toInt + b.toInt)) :
    ∃ c, addI128 env a b = some c ∧ c.toInt = a.toInt + b.toInt := by
  have hno : a.saddOverflow b = false := by
    simp only [BitVec.saddOverflow, Bool.or_eq_false_iff, decide_eq_false_iff_not]
    exact ⟨Int.not_le.mpr h.2, Int.not_lt.mpr h.1⟩
  exact ⟨a + b, signed_of_fits env hno, BitVec.toInt_add_of_not_saddOverflow (by simp [hno])⟩

theorem subI128_exact (env : Env) {a b : I128} (h : InI128 (a.toInt - b.toInt)) :
    ∃ c, subI128 env a b = some c ∧ c.toInt = a.toInt - b.toInt := by
  have hno : a.ssubOverflow b = false := by
    simp only [BitVec.ssubOverflow, Bool.or_eq_false_iff, decide_eq_false_iff_not]
    exact ⟨Int.not_le.mpr h.2, Int.not_lt.mpr h.1⟩
  exact ⟨a - b, signed_of_fits env hno, BitVec.toInt_sub_of_not_ssubOverflow (by simp [hno])⟩

theorem mulI128_exact (env : Env) {a b : I128} (h : InI128 (a.toInt * b.toInt)) :
    ∃ c, mulI128 env a b = some c ∧ c.toInt = a.toInt * b.toInt := by
  have hno : a.smulOverflow b = false := by
    simp only [BitVec.smulOverflow, Bool.or_eq_false_iff, decide_eq_false_iff_not]
    exact ⟨Int.not_le.mpr h.2, Int.not_lt.mpr h.1⟩
  exact ⟨a * b, signed_of_fits env hno, BitVec.toInt_mul_of_not_smulOverflow (by simp [hno])⟩

theorem negI128_exact (env : Env) {a : I128} (h : InI128 (-a.toInt)) :
    ∃ c, negI128 env a = some c ∧ c.toInt = -a.toInt := by
  have hno : a.negOverflow = false := by
    simp only [BitVec.negOverflow, beq_eq_false_iff_ne]
    intro hmin
    have hlt := h.2
    rw [hmin] at hlt
    omega
  exact ⟨-a, signed_of_fits env hno, BitVec.toInt_neg_of_not_negOverflow (by simp [hno])⟩

/-- A cast to `i128` by way of `u128`. -/
theorem asU128_exact {a : U256} (h : a.toNat < 2 ^ 127) :
    ∃ c, asU128 a = some c ∧ c.toInt = a.toNat := by
  have hlt : a.toNat < 2 ^ 128 := Nat.lt_trans h (by decide)
  have hval : (a.setWidth 128 : U128).toNat = a.toNat := by
    rw [BitVec.toNat_setWidth, Nat.mod_eq_of_lt hlt]
  refine ⟨a.setWidth 128, if_pos hlt, ?_⟩
  rw [BitVec.toInt_eq_toNat_of_lt (by rw [hval]; omega), hval]

/-! ### Profit and loss -/

/-- The value of a position at a price. -/
def Position.value (position : Position) (price : U256) : Nat :=
  position.size.toNat * price.toNat

/-- What a position has gained at a price. -/
def Position.profit (position : Position) (price : U256) : Int :=
  if position.isLong then position.value price - position.value position.entryPrice
  else position.value position.entryPrice - position.value price

theorem value_exact {position : Position} {price : U256} (h : position.value price < 2 ^ 127) :
    ∃ product value, mulU256 position.size price = some product ∧ asU128 product = some value ∧
      value.toInt = position.value price := by
  obtain ⟨product, hproduct⟩ := Option.isSome_iff_exists.mp
    (mulU256_isSome.mpr (Nat.lt_trans h (by decide)))
  have hval : product.toNat = position.value price := mulU256_eq.mp hproduct
  obtain ⟨value, hvalue, hvalueval⟩ := asU128_exact (hval ▸ h)
  exact ⟨product, value, hproduct, hvalue, by rw [hvalueval, hval]⟩

theorem calculatePnl_exact (env : Env) {position : Position} {price : U256}
    (hentry : position.value position.entryPrice < 2 ^ 127)
    (hprice : position.value price < 2 ^ 127) :
    ∃ pnl, calculatePnl env position price = some pnl ∧
      pnl.toInt = position.profit price := by
  obtain ⟨entryProduct, entryValue, hproduct, hentryValue, hentryInt⟩ := value_exact hentry
  obtain ⟨product, currentValue, hproduct', hcurrentValue, hcurrentInt⟩ := value_exact hprice
  simp only [calculatePnl, hproduct, hentryValue, hproduct', hcurrentValue, Option.bind_eq_bind,
    Option.bind_some]
  rw [Position.profit, ← hentryInt, ← hcurrentInt]
  split
  next =>
    refine subI128_exact env ?_
    rw [InI128, hentryInt, hcurrentInt]
    omega
  next =>
    refine subI128_exact env ?_
    rw [InI128, hentryInt, hcurrentInt]
    omega

end InterBit.Defi
