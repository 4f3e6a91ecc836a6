import Mathlib.Data.List.Basic

/-!
# `NibblePath`: packing key nibbles two to a byte

Keys are walked nibble by nibble. A stored path is a byte vector and an
`offset`, written by `from_nibbles` and read back by `to_nibbles`.

The two do not agree on odd lengths. `from_nibbles` leaves the unpaired nibble
in the *high* half of the *last* byte; `to_nibbles` reads `offset == 1` as an
unpaired *low* half of the *first* byte, and then drops that nibble again. So
`toNibbles_fromNibbles_even` is a round trip, while an odd list comes back
without its first two nibbles and with a zero in their place at the end
(`toNibbles_fromNibbles_odd`): every decoded path has even length
(`toNibbles_length_even`).

Nibbles are `Fin 16`: the source holds them in `u8`, and every list of them is
made by `byte >> 4`, `byte & 0x0f` or a child index below 16.
-/

namespace InterBit.Storage

/-- One hexadecimal digit of a key. -/
abbrev Nibble := Fin 16

/-- `byte >> 4`. -/
def highNibble (byte : UInt8) : Nibble := ⟨byte.toNat / 16, by have := byte.toNat_lt; omega⟩

/-- `byte & 0x0f`. -/
def lowNibble (byte : UInt8) : Nibble := ⟨byte.toNat % 16, by omega⟩

/-- `(a << 4) | b`. -/
def packNibbles (a b : Nibble) : UInt8 := UInt8.ofNat (16 * a.val + b.val)

theorem packNibbles_toNat (a b : Nibble) : (packNibbles a b).toNat = 16 * a.val + b.val := by
  have ha := a.isLt
  have hb := b.isLt
  simp only [packNibbles, UInt8.toNat_ofNat']
  omega

@[simp] theorem highNibble_pack (a b : Nibble) : highNibble (packNibbles a b) = a := by
  have hb := b.isLt
  apply Fin.ext
  simp only [highNibble, packNibbles_toNat]
  omega

@[simp] theorem lowNibble_pack (a b : Nibble) : lowNibble (packNibbles a b) = b := by
  have hb := b.isLt
  apply Fin.ext
  simp only [lowNibble, packNibbles_toNat]
  omega

/-- `bytes_to_nibbles`: high half first. -/
def bytesToNibbles : List UInt8 → List Nibble
  | [] => []
  | byte :: bytes => highNibble byte :: lowNibble byte :: bytesToNibbles bytes

@[simp] theorem bytesToNibbles_length (bytes : List UInt8) :
    (bytesToNibbles bytes).length = 2 * bytes.length := by
  induction bytes with
  | nil => rfl
  | cons byte bytes ih =>
    simp only [bytesToNibbles, List.length_cons, ih]
    omega

theorem byte_eq_of_nibbles {x y : UInt8} (hh : highNibble x = highNibble y)
    (hl : lowNibble x = lowNibble y) : x = y := by
  apply UInt8.toNat_inj.mp
  have h1 := congrArg Fin.val hh
  have h2 := congrArg Fin.val hl
  simp only [highNibble, lowNibble] at h1 h2
  omega

theorem bytesToNibbles_injective : Function.Injective bytesToNibbles := by
  intro xs
  induction xs with
  | nil =>
    intro ys h
    cases ys with
    | nil => rfl
    | cons y ys => simp [bytesToNibbles] at h
  | cons x xs ih =>
    intro ys h
    cases ys with
    | nil => simp [bytesToNibbles] at h
    | cons y ys =>
      simp only [bytesToNibbles, List.cons.injEq] at h
      obtain ⟨hh, hl, ht⟩ := h
      rw [byte_eq_of_nibbles hh hl, ih ht]

/-- `struct NibblePath`. -/
structure NibblePath where
  data : List UInt8
  offset : Nat
  deriving DecidableEq, Repr

namespace NibblePath

/-- The loop of `from_nibbles` over `nibbles.chunks(2)`. -/
def packChunks : List Nibble → List UInt8
  | a :: b :: rest => packNibbles a b :: packChunks rest
  | [a] => [packNibbles a 0]
  | [] => []

/-- `NibblePath::from_nibbles`. -/
def fromNibbles (nibbles : List Nibble) : NibblePath :=
  { data := packChunks nibbles
    offset := nibbles.length % 2 }

/-- The loop of `to_nibbles`; `first` is `i == 0`. -/
def unpackBytes (offset : Nat) : (first : Bool) → List UInt8 → List Nibble
  | _, [] => []
  | first, byte :: rest =>
    if first ∧ offset = 1 then lowNibble byte :: unpackBytes offset false rest
    else highNibble byte :: lowNibble byte :: unpackBytes offset false rest

/-- `NibblePath::to_nibbles`. -/
def toNibbles (p : NibblePath) : List Nibble :=
  let nibbles := unpackBytes p.offset true p.data
  if p.offset = 1 ∧ nibbles.length > 0 then nibbles.tail else nibbles

/-- `NibblePath::concat`. -/
def concat (p other : NibblePath) : NibblePath :=
  fromNibbles (p.toNibbles ++ other.toNibbles)

theorem unpackBytes_false (offset : Nat) (bytes : List UInt8) :
    unpackBytes offset false bytes = bytesToNibbles bytes := by
  induction bytes with
  | nil => rfl
  | cons byte bytes ih => simp [unpackBytes, bytesToNibbles, ih]

/-- Decoding in closed form: offset 1 loses the first byte, any other offset
reads every byte. -/
theorem toNibbles_eq (p : NibblePath) :
    p.toNibbles = bytesToNibbles (if p.offset = 1 then p.data.tail else p.data) := by
  obtain ⟨data, offset⟩ := p
  cases data with
  | nil => simp [toNibbles, unpackBytes, bytesToNibbles]
  | cons byte rest =>
    by_cases ho : offset = 1
    · simp [toNibbles, unpackBytes, unpackBytes_false, ho]
    · simp [toNibbles, unpackBytes, unpackBytes_false, bytesToNibbles, ho]

/-- Every decoded path has even length. -/
theorem toNibbles_length_even (p : NibblePath) : p.toNibbles.length % 2 = 0 := by
  rw [toNibbles_eq, bytesToNibbles_length]
  omega

theorem packChunks_length : ∀ nibbles : List Nibble,
    (packChunks nibbles).length = (nibbles.length + 1) / 2
  | [] => rfl
  | [_] => by simp [packChunks]
  | _ :: _ :: rest => by
    simp only [packChunks, List.length_cons, packChunks_length rest]
    omega

/-- The bytes of `from_nibbles`, read high half first, are the nibbles padded
with a zero to even length. -/
theorem bytesToNibbles_packChunks : ∀ nibbles : List Nibble,
    bytesToNibbles (packChunks nibbles)
      = nibbles ++ List.replicate (nibbles.length % 2) 0
  | [] => rfl
  | [_] => by simp [packChunks, bytesToNibbles]
  | a :: b :: rest => by
    have ih := bytesToNibbles_packChunks rest
    have hpar : (a :: b :: rest).length % 2 = rest.length % 2 := by
      simp only [List.length_cons]
      omega
    rw [packChunks, bytesToNibbles, ih, hpar, highNibble_pack, lowNibble_pack]
    rfl

/-- An even list survives the round trip. -/
theorem toNibbles_fromNibbles_even {nibbles : List Nibble} (h : nibbles.length % 2 = 0) :
    (fromNibbles nibbles).toNibbles = nibbles := by
  rw [toNibbles_eq]
  simp only [fromNibbles, h]
  rw [if_neg (by omega), bytesToNibbles_packChunks, h]
  simp

/-- An odd list of at least three comes back without its first two nibbles and
with a zero appended. -/
theorem toNibbles_fromNibbles_odd {a b : Nibble} {rest : List Nibble}
    (h : rest.length % 2 = 1) :
    (fromNibbles (a :: b :: rest)).toNibbles = rest ++ [0] := by
  have hpar : (a :: b :: rest).length % 2 = 1 := by
    simp only [List.length_cons]
    omega
  rw [toNibbles_eq]
  simp only [fromNibbles, hpar, if_true, packChunks, List.tail_cons]
  rw [bytesToNibbles_packChunks, h]
  rfl

/-- Decoding never makes a list longer. -/
theorem toNibbles_fromNibbles_length_le (nibbles : List Nibble) :
    (fromNibbles nibbles).toNibbles.length ≤ nibbles.length := by
  have hlen : (fromNibbles nibbles).data.length = (nibbles.length + 1) / 2 :=
    packChunks_length nibbles
  have hoff : (fromNibbles nibbles).offset = nibbles.length % 2 := rfl
  rw [toNibbles_eq, bytesToNibbles_length]
  split
  next =>
    rw [List.length_tail]
    omega
  next => omega

/-- A single nibble comes back as the empty path. -/
theorem toNibbles_fromNibbles_single (a : Nibble) : (fromNibbles [a]).toNibbles = [] := by
  rw [toNibbles_eq]
  simp [fromNibbles, packChunks, bytesToNibbles]

/-- Even lists have different encodings. -/
theorem fromNibbles_injective_even {xs ys : List Nibble} (hx : xs.length % 2 = 0)
    (hy : ys.length % 2 = 0) (h : fromNibbles xs = fromNibbles ys) : xs = ys := by
  rw [← toNibbles_fromNibbles_even hx, h, toNibbles_fromNibbles_even hy]

/-- Decoded paths have even length, so their concatenation is encoded without loss. -/
theorem toNibbles_concat (p other : NibblePath) :
    (p.concat other).toNibbles = p.toNibbles ++ other.toNibbles := by
  refine toNibbles_fromNibbles_even ?_
  have hp := toNibbles_length_even p
  have hother := toNibbles_length_even other
  rw [List.length_append]
  omega

/-- The codec is right on a list if and only if the list pairs up. -/
theorem codec_iff_even (nibbles : List Nibble) (p other : NibblePath) :
    (fromNibbles nibbles).toNibbles = nibbles ∧
        (p.concat other).toNibbles = p.toNibbles ++ other.toNibbles ↔
      nibbles.length % 2 = 0 := by
  constructor
  · intro h
    have heven := toNibbles_length_even (fromNibbles nibbles)
    rwa [h.1] at heven
  · intro heven
    exact ⟨toNibbles_fromNibbles_even heven, toNibbles_concat p other⟩

/-- One nibble alone is lost. -/
theorem fromNibbles_one_lost :
    ¬ ((fromNibbles [1]).toNibbles = [1] ∧
      ∀ p other : NibblePath, (p.concat other).toNibbles = p.toNibbles ++ other.toNibbles) := by
  intro h
  have hempty := toNibbles_fromNibbles_single 1
  rw [h.1] at hempty
  cases hempty

end NibblePath

end InterBit.Storage
