import Mathlib.Algebra.Ring.Nat
import Mathlib.Order.Lattice.Nat
import InterBit.Lib.CyclicWindow

/-!
# Pieces of memory and what is stored in them

A piece of memory is a list of cells from an address on. `Holds` says that data stands at an
address of the piece, and `store` puts it there. Data is found where it was stored, as long as what
is stored later is apart from it (`holds_store`, `Holds.store_of_apart`).

Spans that are apart have no more cells together than there is room for them (`sum_size_le`).

`sum_of_chain` is the bound of next fit: if two neighbours always have at least `c` together, `n`
of them have about `n * c / 2` together.
-/

namespace InterBit.Lib

variable {α : Type}

/-- `size` cells from an address on. -/
structure Span where
  start : Nat
  size : Nat
  deriving DecidableEq

namespace Span

/-- No cell is in both. -/
def Apart (r s : Span) : Prop := r.start + r.size ≤ s.start ∨ s.start + s.size ≤ r.start

/-- All cells are in the other. -/
def Within (r s : Span) : Prop := s.start ≤ r.start ∧ r.start + r.size ≤ s.start + s.size

instance (r s : Span) : Decidable (r.Apart s) :=
  inferInstanceAs (Decidable (r.start + r.size ≤ s.start ∨ s.start + s.size ≤ r.start))

instance (r s : Span) : Decidable (r.Within s) :=
  inferInstanceAs (Decidable (s.start ≤ r.start ∧ r.start + r.size ≤ s.start + s.size))

theorem Apart.symm {r s : Span} (h : r.Apart s) : s.Apart r := Or.symm h

instance : Std.Symm Apart := ⟨fun _ _ h => h.symm⟩

theorem Apart.of_within {r s r' s' : Span} (h : r.Apart s) (hr : r'.Within r) (hs : s'.Within s) :
    r'.Apart s' := by
  unfold Apart Within at *
  omega

/-- What lies within two spans that are apart has no cells. -/
theorem Apart.size_eq_zero {r s t : Span} (h : r.Apart s) (hr : t.Within r) (hs : t.Within s) :
    t.size = 0 := by
  unfold Apart Within at *
  omega

end Span

/-- The data stands at an address of the piece. -/
def Holds (base : Nat) (cells : List α) (ptr : Nat) (data : List α) : Prop :=
  Span.Within ⟨ptr, data.length⟩ ⟨base, cells.length⟩ ∧
    ∀ i, i < data.length → cells[ptr - base + i]? = data[i]?

/-- The piece with the data at an address, if there is room. -/
def store (base : Nat) (cells : List α) (ptr : Nat) (data : List α) : List α :=
  if Span.Within ⟨ptr, data.length⟩ ⟨base, cells.length⟩ then splice cells (ptr - base) data
  else cells

/-- `size` cells from an address on. -/
def load (base : Nat) (cells : List α) (ptr size : Nat) : List α :=
  (cells.drop (ptr - base)).take size

variable {base ptr : Nat} {cells data : List α}

theorem room_of_within (h : Span.Within ⟨ptr, data.length⟩ ⟨base, cells.length⟩) :
    base ≤ ptr ∧ ptr - base + data.length ≤ cells.length := by
  obtain ⟨hle, hroom⟩ := h
  have hle' : base ≤ ptr := hle
  have hroom' : ptr + data.length ≤ base + cells.length := hroom
  omega

theorem Holds.load_eq (h : Holds base cells ptr data) :
    load base cells ptr data.length = data := by
  obtain ⟨hle, hroom⟩ := room_of_within h.1
  refine List.ext_getElem? fun i => ?_
  rw [load]
  by_cases hi : i < data.length
  · rw [List.getElem?_take_of_lt hi, List.getElem?_drop, h.2 i hi]
  · rw [List.getElem?_eq_none (by rw [List.length_take]; omega),
      List.getElem?_eq_none (Nat.le_of_not_lt hi)]

@[simp] theorem length_store : (store base cells ptr data).length = cells.length := by
  rw [store]
  split
  next h => exact length_splice (room_of_within h).2
  next => rfl

/-- Cells outside of what is stored stay. -/
theorem getElem?_store {i : Nat} (h : base + i < ptr ∨ ptr + data.length ≤ base + i) :
    (store base cells ptr data)[i]? = cells[i]? := by
  rw [store]
  split
  next hin =>
    obtain ⟨hle, hroom⟩ := room_of_within hin
    rw [getElem?_splice hroom, if_neg (by omega)]
  next => rfl

theorem holds_store (h : Span.Within ⟨ptr, data.length⟩ ⟨base, cells.length⟩) :
    Holds base (store base cells ptr data) ptr data := by
  obtain ⟨hle, hroom⟩ := room_of_within h
  refine ⟨by rw [length_store]; exact h, ?_⟩
  intro i hi
  rw [store, if_pos h, getElem?_splice hroom, if_pos (by omega), Nat.add_sub_cancel_left]

/-- What stands elsewhere stays. -/
theorem Holds.store_of_apart {q : Nat} {other : List α} (h : Holds base cells ptr data)
    (hapart : Span.Apart ⟨ptr, data.length⟩ ⟨q, other.length⟩) :
    Holds base (store base cells q other) ptr data := by
  obtain ⟨hle, hroom⟩ := room_of_within h.1
  refine ⟨by rw [length_store]; exact h.1, ?_⟩
  intro i hi
  have hout : ptr + data.length ≤ q ∨ q + other.length ≤ ptr := hapart
  rw [getElem?_store (by omega), h.2 i hi]

/-- What stands in a piece stays when the piece grows. -/
theorem Holds.append (h : Holds base cells ptr data) (more : List α) :
    Holds base (cells ++ more) ptr data := by
  obtain ⟨hle, hroom⟩ := room_of_within h.1
  refine ⟨⟨h.1.1, ?_⟩, ?_⟩
  · show ptr + data.length ≤ base + (cells ++ more).length
    rw [List.length_append]
    omega
  · intro i hi
    rw [List.getElem?_append_left (by omega), h.2 i hi]

/-- Spans that are apart take at least the room of all of them. -/
theorem sum_size_le {first last : Nat} {spans : List Span} (hapart : spans.Pairwise Span.Apart)
    (hin : ∀ s ∈ spans, first ≤ s.start ∧ s.start + s.size ≤ last) :
    (spans.map Span.size).sum ≤ last - first := by
  -- no cell is listed twice, and all of them are cells from `first` on
  have hnodup : (spans.flatMap fun s => List.range' s.start s.size).Nodup := by
    refine List.nodup_flatMap.mpr ⟨fun s _ => List.nodup_range', hapart.imp ?_⟩
    intro r s hrs x hr hs
    rw [List.mem_range'_1] at hr hs
    unfold Span.Apart at hrs
    omega
  have hsub : (spans.flatMap fun s => List.range' s.start s.size)
      ⊆ List.range' first (last - first) := by
    intro x hx
    obtain ⟨s, hs, hx⟩ := List.mem_flatMap.mp hx
    rw [List.mem_range'_1] at hx ⊢
    have := hin s hs
    omega
  have hlength := (hnodup.subperm hsub).length_le
  rw [List.length_flatMap, List.length_range'] at hlength
  simpa only [List.length_range'] using hlength

/-- An element of a list and any other one. -/
theorem rel_of_pairwise_split {r : α → α → Prop} [Std.Symm r] {before after : List α} {x y : α}
    (h : (before ++ x :: after).Pairwise r) (hy : y ∈ before ∨ y ∈ after) : r x y := by
  rw [List.pairwise_append, List.pairwise_cons] at h
  rcases hy with hy | hy
  · exact Std.Symm.symm _ _ (h.2.2 y hy x List.mem_cons_self)
  · exact h.2.1.1 y hy

/-- The sum of a list whose neighbours always have at least `c` together. -/
theorem sum_of_chain {c a : Nat} {parts : List Nat}
    (h : (a :: parts).IsChain fun a b => c ≤ a + b) :
    parts.length * c + a ≤ 2 * (a :: parts).sum := by
  induction parts generalizing a with
  | nil =>
    rw [List.length_nil, List.sum_singleton]
    omega
  | cons b parts ih =>
    obtain ⟨hab, htail⟩ := List.isChain_cons_cons.mp h
    have hrest := ih htail
    rw [List.length_cons, Nat.add_mul, Nat.one_mul, List.sum_cons]
    omega

/-- The last part may grow. -/
theorem isChain_concat_mono {c a b : Nat} {parts : List Nat}
    (h : (parts ++ [a]).IsChain fun a b => c ≤ a + b) (hle : a ≤ b) :
    (parts ++ [b]).IsChain fun a b => c ≤ a + b := by
  rw [List.isChain_append] at h ⊢
  refine ⟨h.1, List.isChain_singleton b, ?_⟩
  intro x hx y hy
  obtain rfl := Option.some.inj hy
  exact Nat.le_trans (h.2.2 x hx a rfl) (Nat.add_le_add_left hle x)

end InterBit.Lib
