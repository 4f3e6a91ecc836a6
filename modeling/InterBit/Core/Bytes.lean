import Mathlib.Data.BitVec
import Mathlib.Tactic.Ring

/-!
# Machine integers, addresses and hashes

`u64`, `u128` and `U256` are bit vectors. Arithmetic on the machine integers wraps
around or panics, as the `Build` has overflow checks off or on; `U256` (from the crate
`primitive_types`) panics on overflow in every build. Lengths and positions are
natural numbers; where the code computes with them as `usize`, so does the model
(`addUsize` and the like). SHA-256 is a parameter of the model, and with the build it
makes the `Env`.
-/

namespace InterBit

abbrev U64 := BitVec 64
abbrev U128 := BitVec 128
abbrev U256 := BitVec 256

/-- `[u8; 20]`. -/
abbrev Address := Vector UInt8 20

/-- `H256`. -/
abbrev H256 := Vector UInt8 32

instance : LawfulBEq H256 := inferInstanceAs (LawfulBEq (Vector UInt8 32))

/-- How the program has been built. -/
structure Build where
  /-- Whether arithmetic on machine integers panics on overflow. -/
  overflowChecks : Bool

/-- What the model takes from outside the repository. -/
structure Env extends Build where
  /-- `Sha256::digest`. -/
  sha256 : List UInt8 → H256

namespace Build

/-- `a + b` on `u64`; `none` is a panic. -/
def add64 (build : Build) (a b : U64) : Option U64 :=
  if build.overflowChecks ∧ 2 ^ 64 ≤ a.toNat + b.toNat then none else some (a + b)

/-- `a - b` on `u64`; `none` is a panic. -/
def sub64 (build : Build) (a b : U64) : Option U64 :=
  if build.overflowChecks ∧ a.toNat < b.toNat then none else some (a - b)

/-- `a * b` on `u64`; `none` is a panic. -/
def mul64 (build : Build) (a b : U64) : Option U64 :=
  if build.overflowChecks ∧ 2 ^ 64 ≤ a.toNat * b.toNat then none else some (a * b)

/-- `a + 1` on `u32`; `none` is a panic. -/
def succ32 (build : Build) (a : BitVec 32) : Option (BitVec 32) :=
  if build.overflowChecks ∧ 2 ^ 32 ≤ a.toNat + 1 then none else some (a + 1)

/-- `a + b` on `usize`; `none` is a panic. -/
def addUsize (build : Build) (a b : Nat) : Option Nat :=
  if build.overflowChecks ∧ 2 ^ 64 ≤ a + b then none else some ((a + b) % 2 ^ 64)

/-- `a - b` on `usize`; `none` is a panic. -/
def subUsize (build : Build) (a b : Nat) : Option Nat :=
  if build.overflowChecks ∧ a < b then none else some ((2 ^ 64 + a - b) % 2 ^ 64)

/-- `a * b` on `usize`; `none` is a panic. -/
def mulUsize (build : Build) (a b : Nat) : Option Nat :=
  if build.overflowChecks ∧ 2 ^ 64 ≤ a * b then none else some (a * b % 2 ^ 64)

/-- A sum that is there is the wrapped one, and with the checks it fits. -/
theorem add64_eq_some {build : Build} {a b c : U64} (h : build.add64 a b = some c) :
    c = a + b ∧ (build.overflowChecks = true → a.toNat + b.toNat < 2 ^ 64) := by
  unfold add64 at h
  split at h
  next => cases h
  next hno =>
    refine ⟨(Option.some.inj h).symm, fun hc => ?_⟩
    rw [not_and] at hno
    exact Nat.lt_of_not_le (hno hc)

section Usize

variable {build : Build} {a b : Nat}

theorem addUsize_of_lt (h : a + b < 2 ^ 64) : build.addUsize a b = some (a + b) := by
  rw [addUsize, if_neg fun hno => Nat.not_le_of_lt h hno.2, Nat.mod_eq_of_lt h]

theorem subUsize_of_le (h : b ≤ a) (ha : a < 2 ^ 64) : build.subUsize a b = some (a - b) := by
  have hround : (2 ^ 64 + a - b) % 2 ^ 64 = a - b := by omega
  rw [subUsize, if_neg fun hno => Nat.not_le_of_lt hno.2 h, hround]

theorem mulUsize_of_lt (h : a * b < 2 ^ 64) : build.mulUsize a b = some (a * b) := by
  rw [mulUsize, if_neg fun hno => Nat.not_le_of_lt h hno.2, Nat.mod_eq_of_lt h]

/-- A difference that has not wrapped around. -/
theorem subUsize_eq_some {c : Nat} (h : build.subUsize a b = some c)
    (hfits : build.overflowChecks = true ∨ b ≤ a) (ha : a < 2 ^ 64) : b ≤ a ∧ c = a - b := by
  unfold subUsize at h
  split at h
  next => cases h
  next hno =>
    have hle : b ≤ a :=
      hfits.elim (fun hchecks => Nat.le_of_not_lt fun hlt => hno ⟨hchecks, hlt⟩) id
    have heq := Option.some.inj h
    omega

/-- A sum that has not wrapped around. -/
theorem addUsize_eq_some {c : Nat} (h : build.addUsize a b = some c)
    (hfits : build.overflowChecks = true ∨ a + b < 2 ^ 64) : a + b < 2 ^ 64 ∧ c = a + b := by
  unfold addUsize at h
  split at h
  next => cases h
  next hno =>
    have hlt : a + b < 2 ^ 64 :=
      hfits.elim (fun hchecks => Nat.lt_of_not_le fun hle => hno ⟨hchecks, hle⟩) id
    exact ⟨hlt, (Option.some.inj h).symm.trans (Nat.mod_eq_of_lt hlt)⟩

/-- A sum that fits is added up without an overflow. -/
theorem foldlM_addUsize {counts : List Nat} : ∀ {start : Nat}, start + counts.sum < 2 ^ 64 →
    counts.foldlM build.addUsize start = some (start + counts.sum) := by
  induction counts with
  | nil => exact fun _ => rfl
  | cons count counts ih =>
    intro start hlt
    rw [List.sum_cons, ← Nat.add_assoc] at hlt
    rw [List.foldlM_cons, addUsize_of_lt (Nat.lt_of_le_of_lt (Nat.le_add_right _ _) hlt),
      Option.bind_eq_bind, Option.bind_some, ih hlt, List.sum_cons, Nat.add_assoc]

end Usize

end Build

/-- `a + b` on `U256`; `none` is a panic. -/
def addU256 (a b : U256) : Option U256 :=
  if a.toNat + b.toNat < 2 ^ 256 then some (a + b) else none

/-- `a - b` on `U256`; `none` is a panic. -/
def subU256 (a b : U256) : Option U256 := if b.toNat ≤ a.toNat then some (a - b) else none

/-- `a * b` on `U256`; `none` is a panic. -/
def mulU256 (a b : U256) : Option U256 :=
  if a.toNat * b.toNat < 2 ^ 256 then some (a * b) else none

/-- `a / b` on `U256`; `none` is a panic. -/
def divU256 (a b : U256) : Option U256 := if b = 0 then none else some (a / b)

/-- `a * b / c` on `U256`; `none` is a panic. -/
def mulDivU256 (a b c : U256) : Option U256 := do
  let product ← mulU256 a b
  divU256 product c

/-- `min` on `U256`. -/
def minU256 (a b : U256) : U256 := if a ≤ b then a else b

/-- `to_be_bytes` of an integer of `n` bytes. -/
def toBeBytes {w : Nat} (n : Nat) (x : BitVec w) : List UInt8 :=
  (List.range n).reverse.map fun i => UInt8.ofNat (x.toNat / 256 ^ i)

/-- `{:?}` of a byte array. -/
def debugBytes {n : Nat} (bytes : Vector UInt8 n) : String :=
  "[" ++ ", ".intercalate (bytes.toList.map toString) ++ "]"

variable {a b c : U256}

theorem addU256_eq_some (h : addU256 a b = some c) : c.toNat = a.toNat + b.toNat := by
  unfold addU256 at h
  split at h
  next hlt =>
    rw [← Option.some.inj h, BitVec.toNat_add, Nat.mod_eq_of_lt hlt]
  next => cases h

theorem addU256_eq : addU256 a b = some c ↔ c.toNat = a.toNat + b.toNat := by
  constructor
  · exact addU256_eq_some
  · intro h
    have hlt : a.toNat + b.toNat < 2 ^ 256 := h ▸ c.isLt
    rw [addU256, if_pos hlt]
    refine congrArg some (BitVec.eq_of_toNat_eq ?_)
    rw [BitVec.toNat_add, Nat.mod_eq_of_lt hlt, h]

theorem subU256_eq : subU256 a b = some c ↔ c.toNat + b.toNat = a.toNat := by
  constructor
  · intro h
    unfold subU256 at h
    split at h
    next hle =>
      rw [← Option.some.inj h, BitVec.toNat_sub_of_le (BitVec.le_def.mpr hle),
        Nat.sub_add_cancel hle]
    next => cases h
  · intro h
    have hle : b.toNat ≤ a.toNat := h ▸ Nat.le_add_left ..
    rw [subU256, if_pos hle]
    refine congrArg some (BitVec.eq_of_toNat_eq ?_)
    rw [BitVec.toNat_sub_of_le (BitVec.le_def.mpr hle), ← h, Nat.add_sub_cancel]

/-- A product comes out exactly if it is in range. -/
theorem mulU256_eq : mulU256 a b = some c ↔ c.toNat = a.toNat * b.toNat := by
  constructor
  · intro h
    unfold mulU256 at h
    split at h
    next hlt => rw [← Option.some.inj h, BitVec.toNat_mul, Nat.mod_eq_of_lt hlt]
    next => cases h
  · intro h
    have hlt : a.toNat * b.toNat < 2 ^ 256 := h ▸ c.isLt
    rw [mulU256, if_pos hlt]
    refine congrArg some (BitVec.eq_of_toNat_eq ?_)
    rw [BitVec.toNat_mul, Nat.mod_eq_of_lt hlt, h]

theorem divU256_eq : divU256 a b = some c ↔ 0 < b.toNat ∧ c.toNat = a.toNat / b.toNat := by
  rw [divU256]
  split
  next hzero => simp [hzero]
  next hzero =>
    have hpos : 0 < b.toNat := Nat.pos_of_ne_zero fun h => hzero (BitVec.eq_of_toNat_eq h)
    rw [Option.some_inj, ← BitVec.toNat_inj, BitVec.toNat_udiv, and_iff_right hpos, eq_comm]

theorem addU256_isSome {a b : U256} : (addU256 a b).isSome ↔ a.toNat + b.toNat < 2 ^ 256 := by
  rw [addU256, Option.isSome_ite]

theorem subU256_isSome {a b : U256} : (subU256 a b).isSome ↔ b.toNat ≤ a.toNat := by
  rw [subU256, Option.isSome_ite]

theorem mulU256_isSome {a b : U256} : (mulU256 a b).isSome ↔ a.toNat * b.toNat < 2 ^ 256 := by
  rw [mulU256, Option.isSome_ite]

theorem divU256_isSome {a b : U256} : (divU256 a b).isSome ↔ 0 < b.toNat := by
  rw [divU256, Option.isSome_ite', Nat.pos_iff_ne_zero]
  exact not_congr ⟨fun h => h ▸ rfl, fun h => BitVec.eq_of_toNat_eq h⟩

theorem mulDivU256_eq {a b c d : U256} : mulDivU256 a b c = some d ↔
    (a.toNat * b.toNat < 2 ^ 256 ∧ 0 < c.toNat) ∧ d.toNat = a.toNat * b.toNat / c.toNat := by
  simp only [mulDivU256, Option.bind_eq_bind, Option.bind_eq_some_iff, mulU256_eq, divU256_eq]
  constructor
  · rintro ⟨product, hproduct, hpos, hd⟩
    rw [← hproduct]
    exact ⟨⟨product.isLt, hpos⟩, hd⟩
  · rintro ⟨⟨hlt, hpos⟩, hd⟩
    refine ⟨BitVec.ofNat 256 (a.toNat * b.toNat), ?_, hpos, ?_⟩
    all_goals rw [BitVec.toNat_ofNat, Nat.mod_eq_of_lt hlt]
    exact hd

theorem mulDivU256_isSome :
    (mulDivU256 a b c).isSome ↔ a.toNat * b.toNat < 2 ^ 256 ∧ 0 < c.toNat := by
  rw [Option.isSome_iff_exists]
  constructor
  · rintro ⟨d, h⟩
    exact (mulDivU256_eq.mp h).1
  · intro h
    have hlt : a.toNat * b.toNat / c.toNat < 2 ^ 256 :=
      Nat.lt_of_le_of_lt (Nat.div_le_self ..) h.1
    exact ⟨BitVec.ofNat 256 _, mulDivU256_eq.mpr ⟨h, by
      rw [BitVec.toNat_ofNat, Nat.mod_eq_of_lt hlt]⟩⟩

@[simp] theorem toNat_minU256 (a b : U256) : (minU256 a b).toNat = min a.toNat b.toNat := by
  unfold minU256
  split
  next h => exact (Nat.min_eq_left (BitVec.le_def.mp h)).symm
  next h => exact (Nat.min_eq_right (Nat.le_of_not_le fun hle => h (BitVec.le_def.mpr hle))).symm

/-- The number of a big-endian byte string. -/
def ofBeBytes (bytes : List UInt8) : Nat := bytes.foldl (fun n b => n * 256 + b.toNat) 0

theorem foldl_toBeBytes {w : Nat} (x : BitVec w) (n : Nat) : ∀ m : Nat,
    (toBeBytes n x).foldl (fun n b => n * 256 + b.toNat) m = m * 256 ^ n + x.toNat % 256 ^ n := by
  induction n with
  | zero =>
    intro m
    rw [Nat.pow_zero, Nat.mod_one, Nat.mul_one]
    rfl
  | succ n ih =>
    intro m
    have hcons : toBeBytes (n + 1) x = UInt8.ofNat (x.toNat / 256 ^ n) :: toBeBytes n x := by
      rw [toBeBytes, List.range_succ, List.reverse_append]
      rfl
    rw [hcons, List.foldl_cons, ih, UInt8.toNat_ofNat', @Nat.mod_pow_succ x.toNat 256 n,
      Nat.pow_succ]
    ring

/-- Enough bytes give the number back. -/
theorem ofBeBytes_toBeBytes {w n : Nat} (x : BitVec w) (h : w ≤ 8 * n) :
    BitVec.ofNat w (ofBeBytes (toBeBytes n x)) = x := by
  have hlt : x.toNat < 256 ^ n := by
    have hpow : (256 : Nat) ^ n = 2 ^ (8 * n) := by rw [Nat.pow_mul]
    rw [hpow]
    exact Nat.lt_of_lt_of_le x.isLt (Nat.pow_le_pow_right (by decide) h)
  rw [ofBeBytes, foldl_toBeBytes, Nat.zero_mul, Nat.zero_add, Nat.mod_eq_of_lt hlt,
    BitVec.ofNat_toNat, BitVec.setWidth_eq]

theorem length_toBeBytes {w : Nat} (n : Nat) (x : BitVec w) : (toBeBytes n x).length = n := by
  rw [toBeBytes, List.length_map, List.length_reverse, List.length_range]

/-! ## Hexadecimal text -/

/-- The two digits of each byte. -/
def hexDigits : List UInt8 → List Char
  | [] => []
  | b :: bytes => Nat.digitChar (b.toNat / 16) :: Nat.digitChar (b.toNat % 16) :: hexDigits bytes

/-- `hex::encode`. -/
def hexEncode (bytes : List UInt8) : String := String.ofList (hexDigits bytes)

theorem digitChar_inj : ∀ a b : Fin 16, Nat.digitChar a = Nat.digitChar b → a = b := by decide

theorem digitChar_inj_of_lt {a b : Nat} (ha : a < 16) (hb : b < 16)
    (h : Nat.digitChar a = Nat.digitChar b) : a = b :=
  Fin.val_eq_of_eq (digitChar_inj ⟨a, ha⟩ ⟨b, hb⟩ h)

/-- A byte can be read off its two digits. -/
theorem hexDigits_injective : Function.Injective hexDigits := by
  intro xs
  induction xs with
  | nil =>
    intro ys h
    cases ys with
    | nil => rfl
    | cons y ys => cases h
  | cons x xs ih =>
    intro ys h
    cases ys with
    | nil => cases h
    | cons y ys =>
      obtain ⟨hhigh, h⟩ := List.cons.inj h
      obtain ⟨hlow, hrest⟩ := List.cons.inj h
      have hx := x.toNat_lt
      have hy := y.toNat_lt
      have hdiv := digitChar_inj_of_lt (by omega) (by omega) hhigh
      have hmod := digitChar_inj_of_lt (by omega) (by omega) hlow
      have hxy : x = y := UInt8.toNat_inj.mp (by omega)
      rw [hxy, ih hrest]

theorem hexEncode_injective : Function.Injective hexEncode := fun _ _ h =>
  hexDigits_injective (String.ofList_injective h)

theorem toList_append_inj {a b c d : H256} (h : a.toList ++ b.toList = c.toList ++ d.toList) :
    a = c ∧ b = d := by
  obtain ⟨hfirst, hsecond⟩ := List.append_inj h (by rw [Vector.length_toList, Vector.length_toList])
  exact ⟨Vector.toList_inj.mp hfirst, Vector.toList_inj.mp hsecond⟩

end InterBit
