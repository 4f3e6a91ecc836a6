import Mathlib.Algebra.Ring.Nat
import Mathlib.Data.List.Range

/-!
# Sequence numbers

A list of machine integers is `Numbered` if it is 1, 2, 3 and so on, in this order. A number more
keeps it so exactly if it is the next one, and as the integers are bounded the list is, too.
-/

namespace InterBit.Lib

variable {w : Nat} {numbers : List (BitVec w)}

/-- The numbers are 1, 2, 3 and so on. -/
def Numbered (numbers : List (BitVec w)) : Prop :=
  numbers.map BitVec.toNat = List.range' 1 numbers.length

instance (numbers : List (BitVec w)) : Decidable (Numbered numbers) :=
  inferInstanceAs (Decidable (_ = _))

theorem numbered_nil : Numbered ([] : List (BitVec w)) := rfl

/-- One number more has to be the next. -/
theorem numbered_concat {number : BitVec w} :
    Numbered (numbers ++ [number]) ↔ Numbered numbers ∧ number.toNat = numbers.length + 1 := by
  rw [Numbered, List.map_append, List.length_append, List.length_singleton, List.range'_concat,
    Nat.one_mul, Nat.add_comm 1]
  constructor
  · intro h
    obtain ⟨hfront, hlast⟩ := List.append_inj' h rfl
    exact ⟨hfront, List.singleton_inj.mp hlast⟩
  · rintro ⟨hfront, hlast⟩
    rw [show numbers.map BitVec.toNat = _ from hfront, List.map_singleton, hlast]

theorem Numbered.le_length (h : Numbered numbers) {number : BitVec w} (hmem : number ∈ numbers) :
    number.toNat ≤ numbers.length := by
  have hrange : number.toNat ∈ List.range' 1 numbers.length := h ▸ List.mem_map_of_mem hmem
  rw [List.mem_range'_1] at hrange
  omega

theorem Numbered.length_lt (h : Numbered numbers) : numbers.length < 2 ^ w := by
  by_cases hempty : numbers.length = 0
  · rw [hempty]
    exact Nat.two_pow_pos w
  · have hlast : numbers.length ∈ numbers.map BitVec.toNat := by
      rw [show numbers.map BitVec.toNat = _ from h, List.mem_range'_1]
      omega
    obtain ⟨number, _, heq⟩ := List.mem_map.mp hlast
    rw [← heq]
    exact number.isLt

end InterBit.Lib
