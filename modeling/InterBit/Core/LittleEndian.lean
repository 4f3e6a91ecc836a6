import InterBit.Core.Keccak

/-!
# Little-endian integers

`to_le_bytes` and `from_le_bytes` are inverse to each other, for an integer of `n` bytes and a
string of `n` bytes.
-/

namespace InterBit

/-- The bytes of a number, the lowest first. -/
def leBytes (n m : Nat) : List UInt8 := (List.range n).map fun i => UInt8.ofNat (m / 256 ^ i)

theorem leBytes_succ (n m : Nat) : leBytes (n + 1) m = UInt8.ofNat m :: leBytes n (m / 256) := by
  have hdigit : ∀ i, m / 256 ^ (i + 1) = m / 256 / 256 ^ i := fun i => by
    rw [Nat.div_div_eq_div_mul, Nat.pow_succ']
  rw [leBytes, leBytes, List.range_succ_eq_map, List.map_cons, List.map_map, Nat.pow_zero,
    Nat.div_one]
  exact congrArg (UInt8.ofNat m :: ·) (List.map_congr_left fun i _ => congrArg _ (hdigit i))

theorem length_leBytes (n m : Nat) : (leBytes n m).length = n := by
  rw [leBytes, List.length_map, List.length_range]

theorem ofLeBytes_cons (b : UInt8) (bytes : List UInt8) :
    ofLeBytes (b :: bytes) = b.toNat + 256 * ofLeBytes bytes := rfl

theorem ofLeBytes_leBytes (n : Nat) : ∀ m : Nat, ofLeBytes (leBytes n m) = m % 256 ^ n := by
  induction n with
  | zero => exact fun m => (Nat.mod_one m).symm
  | succ n ih =>
    intro m
    rw [leBytes_succ, ofLeBytes_cons, ih, UInt8.toNat_ofNat',
      show 256 ^ (n + 1) = 256 * 256 ^ n from Nat.pow_succ', Nat.mod_mul]

theorem leBytes_ofLeBytes (bytes : List UInt8) :
    leBytes bytes.length (ofLeBytes bytes) = bytes := by
  induction bytes with
  | nil => rfl
  | cons b bytes ih =>
    have hlt := b.toNat_lt
    have hlow : UInt8.ofNat (b.toNat + 256 * ofLeBytes bytes) = b := by
      rw [← UInt8.toNat_inj, UInt8.toNat_ofNat']
      omega
    have hhigh : (b.toNat + 256 * ofLeBytes bytes) / 256 = ofLeBytes bytes := by omega
    rw [List.length_cons, ofLeBytes_cons, leBytes_succ, hlow, hhigh, ih]

theorem ofLeBytes_lt (bytes : List UInt8) : ofLeBytes bytes < 256 ^ bytes.length := by
  induction bytes with
  | nil => exact Nat.one_pos
  | cons b bytes ih =>
    have hlt := b.toNat_lt
    rw [List.length_cons, ofLeBytes_cons, Nat.pow_succ']
    omega

theorem length_toLeBytes {w : Nat} (n : Nat) (x : BitVec w) : (toLeBytes n x).length = n :=
  length_leBytes n x.toNat

/-- `from_le_bytes` reads what `to_le_bytes` has written. -/
theorem ofNat_ofLeBytes_toLeBytes {w n : Nat} (hw : w = 8 * n) (x : BitVec w) :
    BitVec.ofNat w (ofLeBytes (toLeBytes n x)) = x := by
  have hpow : (256 : Nat) ^ n = 2 ^ w := by rw [hw, Nat.pow_mul]
  have hlt : x.toNat < 256 ^ n := hpow ▸ x.isLt
  rw [show toLeBytes n x = leBytes n x.toNat from rfl, ofLeBytes_leBytes, Nat.mod_eq_of_lt hlt,
    BitVec.ofNat_toNat, BitVec.setWidth_eq]

/-- `to_le_bytes` writes what `from_le_bytes` has read. -/
theorem toLeBytes_ofNat_ofLeBytes {w : Nat} {bytes : List UInt8} (hw : w = 8 * bytes.length) :
    toLeBytes bytes.length (BitVec.ofNat w (ofLeBytes bytes)) = bytes := by
  have hpow : (256 : Nat) ^ bytes.length = 2 ^ w := by rw [hw, Nat.pow_mul]
  have hlt : ofLeBytes bytes < 2 ^ w := hpow ▸ ofLeBytes_lt bytes
  show leBytes bytes.length (BitVec.ofNat w (ofLeBytes bytes)).toNat = bytes
  rw [BitVec.toNat_ofNat, Nat.mod_eq_of_lt hlt, leBytes_ofLeBytes]

end InterBit
