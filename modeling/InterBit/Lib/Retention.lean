import InterBit.Lib.Assoc
import Mathlib.Data.List.MinMax
import Mathlib.Data.List.Perm.Basic

/-!
# What is kept of a history

`insertBounded` keeps the entries of a map with the highest keys, as many as there is room for: if
there are too many, the lowest one goes. A key that is not there any more has had to make room for
higher ones, which are still there (`Retained`).

`latest` is the last value of a history in which there may not be one at every time.
-/

namespace InterBit.Lib

variable {α β : Type} [DecidableEq α]

/-- Insert an entry, and drop the one with the lowest key if there are more than `n`. -/
def insertBounded (rank : α → Nat) (n : Nat) (k : α) (v : β) (m : AList fun _ : α => β) :
    AList fun _ : α => β :=
  if n < (m.insert k v).entries.length then
    match (m.insert k v).keys.argmin rank with
    | some least => (m.insert k v).erase least
    | none => m.insert k v
  else m.insert k v

/-- How many keys are higher. -/
def above (rank : α → Nat) (k : α) (m : AList fun _ : α => β) : Nat :=
  m.keys.countP fun k' => rank k < rank k'

/-- The key is there, or `n` higher ones are. -/
def Retained (rank : α → Nat) (n : Nat) (k : α) (m : AList fun _ : α => β) : Prop :=
  k ∈ m ∨ n ≤ above rank k m

variable {rank : α → Nat} {n : Nat} {k k' : α} {v : β} {m : AList fun _ : α => β}

omit [DecidableEq α] in
theorem length_keys (m : AList fun _ : α => β) : m.keys.length = m.entries.length :=
  List.length_map _

theorem length_insert_le (k : α) (v : β) (m : AList fun _ : α => β) :
    (m.insert k v).entries.length ≤ m.entries.length + 1 := by
  rw [← length_keys, ← length_keys, AList.keys_insert, List.length_cons]
  exact Nat.succ_le_succ List.length_erase_le

/-- The keys after an insertion. -/
theorem above_le_above_insert (k : α) (v : β) (m : AList fun _ : α => β) (k' : α) :
    above rank k' m ≤ above rank k' (m.insert k v) := by
  unfold above
  rw [AList.keys_insert]
  by_cases hmem : k ∈ m.keys
  · exact Nat.le_of_eq ((List.perm_cons_erase hmem).countP_eq _)
  · rw [List.erase_of_not_mem hmem]
    exact (List.sublist_cons_self k m.keys).countP_le

/-- What is dropped is the lowest key. -/
theorem insertBounded_cases (rank : α → Nat) (n : Nat) (k : α) (v : β)
    (m : AList fun _ : α => β) :
    ((m.insert k v).entries.length ≤ n ∧ insertBounded rank n k v m = m.insert k v) ∨
    ∃ least ∈ m.insert k v, (∀ k' ∈ m.insert k v, rank least ≤ rank k') ∧
      n < (m.insert k v).entries.length ∧
      insertBounded rank n k v m = (m.insert k v).erase least := by
  unfold insertBounded
  by_cases hfull : n < (m.insert k v).entries.length
  · rw [if_pos hfull]
    right
    cases hleast : (m.insert k v).keys.argmin rank with
    | none =>
      rw [List.argmin_eq_none, AList.keys_insert] at hleast
      cases hleast
    | some least =>
      refine ⟨least, AList.mem_keys.mpr (List.argmin_mem hleast), ?_, hfull, rfl⟩
      intro k' hk'
      exact List.le_of_mem_argmin (AList.mem_keys.mp hk') hleast
  · rw [if_neg hfull]
    exact .inl ⟨Nat.le_of_not_lt hfull, rfl⟩

theorem length_insertBounded (h : m.entries.length ≤ n) :
    (insertBounded rank n k v m).entries.length ≤ n := by
  rcases insertBounded_cases rank n k v m with ⟨hle, heq⟩ | ⟨least, hmem, -, -, heq⟩
  · rw [heq]
    exact hle
  · have hinsert := length_insert_le k v m
    have herase : ((m.insert k v).erase least).entries.length + 1
        = (m.insert k v).entries.length := by
      rw [← length_keys, ← length_keys, AList.keys_erase]
      exact List.length_erase_add_one (AList.mem_keys.mp hmem)
    rw [heq]
    omega

/-- What is there after an insertion was there, or it is new. -/
theorem lookup_of_insertBounded {v' : β} (h : (insertBounded rank n k v m).lookup k' = some v') :
    (m.insert k v).lookup k' = some v' := by
  rcases insertBounded_cases rank n k v m with ⟨-, heq⟩ | ⟨least, -, -, -, heq⟩
  · rwa [heq] at h
  · rw [heq] at h
    by_cases hk : k' = least
    · rw [hk, AList.lookup_erase] at h
      cases h
    · rwa [AList.lookup_erase_ne hk] at h

/-- A key that is there, or that goes in, stays, or else `n` higher ones are there. -/
theorem retained_insertBounded (hrank : Function.Injective rank)
    (h : Retained rank n k' m ∨ k' = k) : Retained rank n k' (insertBounded rank n k v m) := by
  have hinsert : Retained rank n k' (m.insert k v) := by
    rcases h with (hmem | habove) | rfl
    · exact .inl ((AList.mem_insert m).mpr (.inr hmem))
    · exact .inr (habove.trans (above_le_above_insert k v m k'))
    · exact .inl ((AList.mem_insert m).mpr (.inl rfl))
  rcases insertBounded_cases rank n k v m with ⟨-, heq⟩ | ⟨least, hmem, hleast, hfull, heq⟩
  · rwa [heq]
  · rw [heq]
    have hkeys : ((m.insert k v).erase least).keys = (m.insert k v).keys.erase least :=
      AList.keys_erase ..
    by_cases hlow : rank k' < rank least ∨ k' = least
    · -- all the keys that stay are higher
      right
      have hall : ∀ x ∈ (m.insert k v).keys.erase least, rank k' < rank x := by
        intro x hx
        obtain ⟨hne, hx⟩ := (List.Nodup.mem_erase_iff (AList.keys_nodup _)).mp hx
        have hle := hleast x (AList.mem_keys.mpr hx)
        rcases hlow with hlt | rfl
        · exact hlt.trans_le hle
        · exact hle.lt_of_ne fun heq => hne (hrank heq).symm
      unfold above
      rw [hkeys, List.countP_eq_length.mpr fun x hx => decide_eq_true (hall x hx)]
      have hlength := List.length_erase_add_one (AList.mem_keys.mp hmem)
      rw [length_keys] at hlength
      omega
    · rw [not_or] at hlow
      rcases hinsert with hthere | habove
      · refine .inl (AList.mem_keys.mpr ?_)
        rw [hkeys]
        exact (List.mem_erase_of_ne hlow.2).mpr (AList.mem_keys.mp hthere)
      · right
        unfold above at habove ⊢
        have hperm := List.perm_cons_erase (AList.mem_keys.mp hmem)
        have hno : ¬ decide (rank k' < rank least) = true := fun h => hlow.1 (of_decide_eq_true h)
        rw [hperm.countP_eq, List.countP_cons, if_neg hno, Nat.add_zero] at habove
        rwa [hkeys]

/-- Dropping lower keys does not count. -/
theorem retained_retain {p : α → β → Bool} (h : Retained rank n k m)
    (hp : ∀ k' v', rank k ≤ rank k' → p k' v' = true) : Retained rank n k (retain p m) := by
  rcases h with hmem | habove
  · left
    obtain ⟨value, hvalue⟩ := Option.isSome_iff_exists.mp (AList.lookup_isSome.mpr hmem)
    refine AList.lookup_isSome.mp ?_
    rw [lookup_retain, hvalue, Option.filter_some, if_pos (hp k value le_rfl)]
    rfl
  · right
    refine habove.trans ?_
    unfold above AList.keys List.keys
    rw [List.countP_map, List.countP_map]
    change _ ≤ (m.entries.filter _).countP _
    rw [List.countP_filter]
    refine List.countP_mono_left fun e _ he => ?_
    have hlt : rank k < rank e.1 := of_decide_eq_true he
    exact Bool.and_eq_true_iff.mpr ⟨he, hp e.1 e.2 hlt.le⟩

omit [DecidableEq α] in
/-- If there is no room for more, a retained key that is not there is below all that are. -/
theorem Retained.all_above (h : Retained rank n k m) (hlength : m.entries.length ≤ n)
    (hno : k ∉ m) : m.keys.length = n ∧ ∀ k' ∈ m.keys, rank k < rank k' := by
  have habove := h.resolve_left hno
  have hle : above rank k m ≤ m.keys.length := List.countP_le_length
  rw [← length_keys] at hlength
  have heq : above rank k m = m.keys.length := hle.antisymm (hlength.trans habove)
  refine ⟨hlength.antisymm (habove.trans hle), fun k' hk' => ?_⟩
  exact of_decide_eq_true (List.countP_eq_length.mp heq k' hk')

/-! ## The latest value -/

/-- The last of the values that there are. -/
def latest : List (Option β) → Option β := List.foldl (fun seen now => now.or seen) none

end InterBit.Lib
