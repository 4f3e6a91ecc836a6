import InterBit.Core.Bytes

/-!
# Keccak and the clock

What the protection against MEV and the bridges to other chains share. Keccak-256 is a
parameter; nothing is assumed about it here. A clock that is read in seconds counts them in
an `i64`, so that a few more seconds never overflow a `u64`.
-/

namespace InterBit

/-- With Keccak. -/
structure KeccakEnv extends Env where
  /-- `Keccak256::digest`. -/
  keccak256 : List UInt8 → H256

/-- `to_le_bytes` of an integer of `n` bytes. -/
def toLeBytes {w : Nat} (n : Nat) (x : BitVec w) : List UInt8 :=
  (List.range n).map fun i => UInt8.ofNat (x.toNat / 256 ^ i)

/-- The number of a little-endian byte string. -/
def ofLeBytes (bytes : List UInt8) : Nat := bytes.foldr (fun b n => b.toNat + 256 * n) 0

/-- A reading of the clock in seconds. -/
abbrev Seconds := { t : U64 // t.toNat < 2 ^ 63 }

/-- So many seconds. -/
def Seconds.ofNat (n : Nat) : Seconds :=
  ⟨BitVec.ofNat 64 (n % 2 ^ 63), by rw [BitVec.toNat_ofNat]; omega⟩

/-- A later second. -/
def Seconds.after (t : Seconds) (n : U64) : U64 := t.val + n

theorem Seconds.toNat_after (t : Seconds) {n : U64} (h : n.toNat ≤ 2 ^ 62) :
    (t.after n).toNat = t.val.toNat + n.toNat := by
  have ht := t.property
  rw [after, BitVec.toNat_add]
  omega

/-- A digest that is the beginning of its preimage. -/
def sampleKeccakEnv (overflowChecks : Bool) : KeccakEnv where
  sha256 bytes := Vector.ofFn fun i => bytes.getD i 0
  overflowChecks
  keccak256 bytes := Vector.ofFn fun i => bytes.getD i 0

end InterBit
