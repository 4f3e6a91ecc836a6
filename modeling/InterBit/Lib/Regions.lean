import InterBit.Lib.ByteMemory

/-!
# Memory cut into blocks

A region is `size` bytes from an address on, and two regions are `NoOverlap` if they have no byte in
common. A region of `n * size` bytes is cut into `blocks`, which are apart.

What is kept for each of several owners adds up to the whole, if each thing has one owner
(`sum_filter_owners`).
-/

namespace InterBit.Lib

/-- Two regions of the same size have no byte in common. -/
def NoOverlap (size p q : Nat) : Prop := p + size ≤ q ∨ q + size ≤ p

/-- An address in a region. -/
def Inside (size p a : Nat) : Prop := p ≤ a ∧ a < p + size

instance (size p a : Nat) : Decidable (Inside size p a) :=
  inferInstanceAs (Decidable (p ≤ a ∧ a < p + size))

instance (size p q : Nat) : Decidable (NoOverlap size p q) :=
  inferInstanceAs (Decidable (p + size ≤ q ∨ q + size ≤ p))

/-- The addresses of the `n` blocks from an address on. -/
def blocks (size n p : Nat) : Multiset Nat := (Multiset.range n).map fun i => p + i * size

variable {size n p q a : Nat}

theorem NoOverlap.symm (h : NoOverlap size p q) : NoOverlap size q p := Or.symm h

theorem NoOverlap.not_inside (h : NoOverlap size p q) (ha : Inside size p a) : ¬ Inside size q a := by
  intro hq
  unfold NoOverlap at h
  unfold Inside at ha hq
  omega

theorem mem_blocks : a ∈ blocks size n p ↔ ∃ i, i < n ∧ p + i * size = a := by
  simp only [blocks, Multiset.mem_map, Multiset.mem_range]

@[simp] theorem card_blocks : (blocks size n p).card = n := by
  rw [blocks, Multiset.card_map, Multiset.card_range]

/-- A block ends where the next one starts, so the last one ends with the region. -/
theorem le_of_mem_blocks (h : a ∈ blocks size n p) : p ≤ a ∧ a + size ≤ p + size * n := by
  obtain ⟨i, hi, rfl⟩ := mem_blocks.mp h
  have hle : (i + 1) * size ≤ n * size := Nat.mul_le_mul_right size hi
  rw [Nat.mul_comm size n]
  rw [Nat.add_mul, Nat.one_mul] at hle
  omega

theorem inside_of_mem_blocks (hsize : 0 < size) (h : a ∈ blocks size n p) :
    Inside (size * n) p a := by
  obtain ⟨hle, hlast⟩ := le_of_mem_blocks h
  exact ⟨hle, by omega⟩

/-- The number of a block. -/
theorem div_of_mem_blocks (hsize : 0 < size) {i : Nat} : (p + i * size - p) / size = i := by
  rw [Nat.add_sub_cancel_left, Nat.mul_div_cancel i hsize]

theorem nodup_blocks (hsize : 0 < size) : (blocks size n p).Nodup := by
  refine (Multiset.nodup_range n).map ?_
  intro i j hij
  exact Nat.eq_of_mul_eq_mul_right hsize (Nat.add_left_cancel hij)

/-- Two blocks of one region are the same or apart. -/
theorem apart_of_mem_blocks (ha : a ∈ blocks size n p) (hq : q ∈ blocks size n p) (hne : a ≠ q) :
    NoOverlap size a q := by
  obtain ⟨i, -, rfl⟩ := mem_blocks.mp ha
  obtain ⟨j, -, rfl⟩ := mem_blocks.mp hq
  rcases Nat.lt_trichotomy i j with hij | rfl | hij
  · have hle : (i + 1) * size ≤ j * size := Nat.mul_le_mul_right size hij
    rw [Nat.add_mul, Nat.one_mul] at hle
    exact Or.inl (by omega)
  · exact absurd rfl hne
  · have hle : (j + 1) * size ≤ i * size := Nat.mul_le_mul_right size hij
    rw [Nat.add_mul, Nat.one_mul] at hle
    exact Or.inr (by omega)

/-- What lies in regions that are apart is apart. -/
theorem NoOverlap.of_within {big a b : Nat} (h : NoOverlap big p q) (ha : p ≤ a ∧ a + size ≤ p + big)
    (hb : q ≤ b ∧ b + size ≤ q + big) : NoOverlap size a b := by
  unfold NoOverlap at h ⊢
  omega

/-- Regions that are apart take at least the room of all of them. -/
theorem length_mul_le {last : Nat} {starts : List Nat} (hapart : starts.Pairwise (NoOverlap size))
    (hin : ∀ s ∈ starts, p ≤ s ∧ s + size ≤ last) : starts.length * size ≤ last - p := by
  have hspans : (starts.map (Span.mk · size)).Pairwise Span.Apart := List.pairwise_map.mpr hapart
  have hsum := sum_size_le hspans (List.forall_mem_map.mpr hin)
  rw [List.map_map] at hsum
  simpa only [Function.comp_def, List.map_const', List.sum_replicate_nat] using hsum

/-- If everything has one owner, what the owners have is everything. -/
theorem sum_filter_owners {α σ : Type} {owners : List σ} {owns : σ → α → Prop}
    [∀ s, DecidablePred (owns s)] {things : Multiset α}
    (hone : owners.Pairwise fun s t => ∀ x, owns s x → ¬ owns t x)
    (hall : ∀ x ∈ things, ∃ s ∈ owners, owns s x) :
    (owners.map fun s => things.filter (owns s)).sum = things := by
  induction owners generalizing things with
  | nil =>
    refine (Multiset.eq_zero_of_forall_notMem fun x hx => ?_).symm
    obtain ⟨s, hs, -⟩ := hall x hx
    cases hs
  | cons s owners ih =>
    obtain ⟨hs, hone⟩ := List.pairwise_cons.mp hone
    have hrest : (owners.map fun t => (things.filter fun x => ¬ owns s x).filter (owns t)).sum
        = things.filter fun x => ¬ owns s x := by
      refine ih hone fun x hx => ?_
      obtain ⟨hx, hnot⟩ := Multiset.mem_filter.mp hx
      obtain ⟨t, ht, hown⟩ := hall x hx
      rcases List.mem_cons.mp ht with rfl | ht
      · exact absurd hown hnot
      · exact ⟨t, ht, hown⟩
    have hsame : ∀ t ∈ owners, (things.filter fun x => ¬ owns s x).filter (owns t)
        = things.filter (owns t) := by
      intro t ht
      rw [Multiset.filter_filter]
      refine Multiset.filter_congr fun x _ => ?_
      exact and_iff_left_of_imp fun hown hsown => hs t ht x hsown hown
    rw [List.map_cons, List.sum_cons, ← List.map_congr_left hsame, hrest,
      Multiset.filter_add_not]

theorem sum_card_filter_owners {α σ : Type} {owners : List σ} {owns : σ → α → Prop}
    [∀ s, DecidablePred (owns s)] {things : Multiset α}
    (hone : owners.Pairwise fun s t => ∀ x, owns s x → ¬ owns t x)
    (hall : ∀ x ∈ things, ∃ s ∈ owners, owns s x) :
    (owners.map fun s => (things.filter (owns s)).card).sum = things.card := by
  have hsum := congrArg Multiset.cardHom (sum_filter_owners hone hall)
  rw [map_list_sum, List.map_map] at hsum
  exact hsum

end InterBit.Lib
