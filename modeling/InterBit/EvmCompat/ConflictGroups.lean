import InterBit.Core.Bytes
import InterBit.Lib.Classes

/-!
# The conflict groups of a batch

`ConflictAnalyzer` in `evm_compat/parallel_evm.rs`. Two transactions conflict if they go to one
address. `analyze_transactions` goes through the transactions and puts each that is in no group
yet into a new one, with all later ones that conflict with it. The groups it finds are the classes
of `SameTarget` (`analyzeTransactions_eq`).
-/

namespace InterBit.EvmCompat

open InterBit.Lib

/-- `struct Transaction`. -/
structure Transaction where
  sender : Address
  recipient : Option Address
  value : U256
  data : List UInt8
  gasLimit : U64
  gasPrice : U256
  nonce : U64
  deriving DecidableEq

/-! ## The code -/

namespace ConflictAnalyzer

/-- `has_conflict`. -/
def hasConflict (tx1 tx2 : Transaction) : Bool :=
  match tx1.recipient, tx2.recipient with
  | some to1, some to2 => to1 = to2
  | _, _ => false

/-- The inner loop of `analyze_transactions`: the group of a transaction, among those left. -/
def collectConflicts (tx : Transaction) :
    List (Transaction × Nat) → List Nat → Finset Nat → List Nat × Finset Nat
  | [], group, processed => (group, processed)
  | (otherTx, j) :: rest, group, processed =>
    if j ∉ processed ∧ hasConflict tx otherTx then
      collectConflicts tx rest (group ++ [j]) (insert j processed)
    else collectConflicts tx rest group processed

/-- The outer loop. -/
def collectGroups (txs : List Transaction) :
    List (Transaction × Nat) → List (List Nat) → Finset Nat → List (List Nat)
  | [], conflictGroups, _ => conflictGroups
  | (tx, i) :: rest, conflictGroups, processed =>
    if i ∈ processed then collectGroups txs rest conflictGroups processed
    else
      let found := collectConflicts tx (txs.zipIdx.drop (i + 1)) [i] (insert i processed)
      collectGroups txs rest (conflictGroups ++ [found.1]) found.2

/-- `analyze_transactions`. -/
def analyzeTransactions (txs : List Transaction) : List (List Nat) :=
  collectGroups txs txs.zipIdx [] ∅

end ConflictAnalyzer

/-! ## What the groups are -/

/-- The address that transaction `i` goes to. -/
def targetAt (txs : List Transaction) (i : Nat) : Option Address := txs[i]?.bind (·.recipient)

/-- The transactions at two positions are one, or go to one address. -/
def SameTarget (txs : List Transaction) (i j : Nat) : Prop :=
  i = j ∨ (targetAt txs i).isSome ∧ targetAt txs i = targetAt txs j

instance (txs : List Transaction) : DecidableRel (SameTarget txs) := fun _ _ =>
  inferInstanceAs (Decidable (_ ∨ _ ∧ _))

theorem sameTarget_equivalence (txs : List Transaction) : Equivalence (SameTarget txs) where
  refl _ := .inl rfl
  symm := by
    rintro i j (rfl | ⟨hsome, heq⟩)
    · exact .inl rfl
    · exact .inr ⟨heq ▸ hsome, heq.symm⟩
  trans := by
    rintro i j k (rfl | ⟨hsome, heq⟩) (rfl | ⟨hsome', heq'⟩)
    · exact .inl rfl
    · exact .inr ⟨hsome', heq'⟩
    · exact .inr ⟨hsome, heq⟩
    · exact .inr ⟨hsome, heq.trans heq'⟩

variable {txs : List Transaction}

/-- `has_conflict` at two positions. -/
theorem hasConflict_iff {i j : Nat} {tx otherTx : Transaction} (hi : txs[i]? = some tx)
    (hj : txs[j]? = some otherTx) (hne : i ≠ j) :
    ConflictAnalyzer.hasConflict tx otherTx = true ↔ SameTarget txs i j := by
  have htarget : targetAt txs i = tx.recipient := by
    rw [targetAt, hi]
    rfl
  have htarget' : targetAt txs j = otherTx.recipient := by
    rw [targetAt, hj]
    rfl
  rw [SameTarget, htarget, htarget', or_iff_right hne, ConflictAnalyzer.hasConflict]
  cases tx.recipient with
  | none => exact ⟨nofun, nofun⟩
  | some to1 =>
    cases otherTx.recipient with
    | none => exact ⟨nofun, nofun⟩
    | some to2 =>
      rw [decide_eq_true_iff]
      exact ⟨fun h => ⟨rfl, congrArg some h⟩, fun h => Option.some.inj h.2⟩

namespace ConflictAnalyzer

/-! ## The inner loop -/

/-- What the inner loop adds to a group. -/
def newConflicts (tx : Transaction) (processed : Finset Nat) (rest : List (Transaction × Nat)) :
    List Nat :=
  (rest.filter fun entry => entry.2 ∉ processed ∧ hasConflict tx entry.1).map Prod.snd

variable {processed : Finset Nat} {tx : Transaction}

theorem newConflicts_insert {j : Nat} {rest : List (Transaction × Nat)}
    (h : j ∉ rest.map Prod.snd) :
    newConflicts tx (insert j processed) rest = newConflicts tx processed rest := by
  unfold newConflicts
  congr 1
  refine List.filter_congr fun entry hentry => ?_
  have hne : entry.2 ≠ j := fun heq => h (heq ▸ List.mem_map_of_mem hentry)
  exact decide_eq_decide.mpr (by rw [Finset.mem_insert, or_iff_right hne])

theorem collectConflicts_eq (tx : Transaction) (rest : List (Transaction × Nat)) :
    ∀ group processed, (rest.map Prod.snd).Nodup →
      (collectConflicts tx rest group processed).1 = group ++ newConflicts tx processed rest ∧
      ∀ l, l ∈ (collectConflicts tx rest group processed).2 ↔
        l ∈ processed ∨ l ∈ newConflicts tx processed rest := by
  induction rest with
  | nil =>
    intro group processed _
    refine ⟨(List.append_nil _).symm, fun l => (or_iff_left ?_).symm⟩
    exact List.not_mem_nil
  | cons entry rest ih =>
    intro group processed hnodup
    obtain ⟨otherTx, j⟩ := entry
    obtain ⟨hj, hrest⟩ := List.nodup_cons.mp hnodup
    by_cases hc : j ∉ processed ∧ hasConflict tx otherTx = true
    · have hnew : newConflicts tx processed ((otherTx, j) :: rest)
          = j :: newConflicts tx processed rest := by
        rw [newConflicts, List.filter_cons, if_pos (decide_eq_true hc)]
        rfl
      obtain ⟨hgroup, hprocessed⟩ := ih (group ++ [j]) (insert j processed) hrest
      rw [newConflicts_insert hj] at hgroup hprocessed
      rw [collectConflicts, if_pos hc, hnew]
      refine ⟨hgroup.trans (List.append_assoc ..), fun l => (hprocessed l).trans ?_⟩
      rw [Finset.mem_insert, List.mem_cons, or_assoc, or_left_comm]
    · have hnew : newConflicts tx processed ((otherTx, j) :: rest)
          = newConflicts tx processed rest := by
        rw [newConflicts, List.filter_cons, if_neg fun h => hc (of_decide_eq_true h)]
        rfl
      rw [collectConflicts, if_neg hc, hnew]
      exact ih group processed hrest

/-! ## The outer loop -/

theorem drop_zipIdx (k : Nat) : txs.zipIdx.drop k = (txs.drop k).zipIdx k := by
  refine List.ext_getElem? fun m => ?_
  rw [List.getElem?_drop, List.getElem?_zipIdx, List.getElem?_zipIdx, List.getElem?_drop,
    Nat.zero_add]

theorem pairwise_drop_zipIdx (k : Nat) :
    ((txs.zipIdx.drop k).map Prod.snd).Pairwise (· < ·) := by
  rw [drop_zipIdx, List.zipIdx_map_snd]
  exact List.pairwise_lt_range'

/-- The entries from position `k` on. -/
theorem mem_drop_zipIdx {k j : Nat} : (tx, j) ∈ txs.zipIdx.drop k ↔ k ≤ j ∧ txs[j]? = some tx := by
  rw [drop_zipIdx, List.mk_mem_zipIdx_iff_le_and_getElem?_sub, List.getElem?_drop]
  exact and_congr_right fun h => by rw [Nat.add_sub_cancel' h]

theorem mem_newConflicts {k j : Nat} :
    j ∈ newConflicts tx processed (txs.zipIdx.drop k) ↔
      ∃ otherTx, (k ≤ j ∧ txs[j]? = some otherTx) ∧ j ∉ processed ∧
        hasConflict tx otherTx = true := by
  rw [newConflicts, List.mem_map]
  constructor
  · rintro ⟨⟨otherTx, j⟩, hmem, rfl⟩
    obtain ⟨hentry, hc⟩ := List.mem_filter.mp hmem
    exact ⟨otherTx, mem_drop_zipIdx.mp hentry, of_decide_eq_true hc⟩
  · rintro ⟨otherTx, hentry, hc⟩
    exact ⟨(otherTx, j), List.mem_filter.mpr ⟨mem_drop_zipIdx.mpr hentry, decide_eq_true hc⟩, rfl⟩

/-- The positions in a group with a number below `i`. -/
def Processed (txs : List Transaction) (i : Nat) (processed : Finset Nat) : Prop :=
  ∀ j, j ∈ processed ↔ j < txs.length ∧ ∃ l < i, SameTarget txs l j

/-- The group of a transaction that is in none yet is its class. -/
theorem group_eq_classOf {i : Nat} (hi : txs[i]? = some tx) (hfirst : i ∉ processed)
    (hprocessed : Processed txs i processed) :
    i :: newConflicts tx (insert i processed) (txs.zipIdx.drop (i + 1))
      = classOf (SameTarget txs) txs.length i := by
  have hr := sameTarget_equivalence txs
  have hlt : i < txs.length := (List.getElem?_eq_some_iff.mp hi).1
  have hnone : ∀ j, SameTarget txs i j → j ∉ processed := by
    intro j hij hj
    obtain ⟨-, l, hl, hlj⟩ := (hprocessed j).mp hj
    exact hfirst ((hprocessed i).mpr ⟨hlt, l, hl, hr.trans hlj (hr.symm hij)⟩)
  refine eq_classOf (List.pairwise_cons.mpr ⟨fun j hj => ?_, ?_⟩) fun j => ?_
  · obtain ⟨otherTx, hj, -⟩ := mem_newConflicts.mp hj
    exact hj.1
  · exact List.pairwise_map.mpr ((List.pairwise_map.mp (pairwise_drop_zipIdx _)).filter _)
  · rw [List.mem_cons, mem_newConflicts]
    constructor
    · rintro (rfl | ⟨otherTx, ⟨hle, hj⟩, -, hc⟩)
      · exact ⟨hlt, hr.refl _⟩
      · exact ⟨(List.getElem?_eq_some_iff.mp hj).1,
          (hasConflict_iff hi hj (Nat.ne_of_lt hle)).mp hc⟩
    · rintro ⟨hj, hij⟩
      rcases Nat.lt_trichotomy i j with hlt' | rfl | hlt'
      · have hne : i ≠ j := Nat.ne_of_lt hlt'
        refine .inr ⟨txs[j], ⟨hlt', List.getElem?_eq_getElem hj⟩, ?_, ?_⟩
        · rw [Finset.mem_insert, not_or]
          exact ⟨hne.symm, hnone j hij⟩
        · exact (hasConflict_iff hi (List.getElem?_eq_getElem hj) hne).mpr hij
      · exact .inl rfl
      -- An earlier member would have put `i` into its own group.
      · exact absurd ((hprocessed i).mpr ⟨hlt, j, hlt', hr.symm hij⟩) hfirst

/-- A position that is in a group adds nothing. -/
theorem Processed.of_mem {i : Nat} (h : Processed txs i processed) (hi : i ∈ processed) :
    Processed txs (i + 1) processed := by
  intro j
  obtain ⟨-, l, hl, hli⟩ := (h i).mp hi
  rw [h j]
  refine and_congr_right fun _ => ⟨fun ⟨m, hm, hmj⟩ => ⟨m, by omega, hmj⟩, ?_⟩
  rintro ⟨m, hm, hmj⟩
  by_cases hmi : m = i
  · exact ⟨l, hl, (sameTarget_equivalence txs).trans hli (hmi ▸ hmj)⟩
  · exact ⟨m, by omega, hmj⟩

/-- A new group adds its members. -/
theorem Processed.of_group {i : Nat} {processed processed' : Finset Nat}
    (h : Processed txs i processed)
    (hnew : ∀ j, j ∈ processed' ↔
      j ∈ processed ∨ j ∈ classOf (SameTarget txs) txs.length i) :
    Processed txs (i + 1) processed' := by
  intro j
  rw [hnew j, h j, mem_classOf, ← and_or_left]
  refine and_congr_right fun _ => ⟨?_, ?_⟩
  · rintro (⟨m, hm, hmj⟩ | hij)
    · exact ⟨m, by omega, hmj⟩
    · exact ⟨i, Nat.lt_succ_self i, hij⟩
  · rintro ⟨m, hm, hmj⟩
    by_cases hmi : m = i
    · exact .inr (hmi ▸ hmj)
    · exact .inl ⟨m, by omega, hmj⟩

theorem collectGroups_eq (rest : List (Transaction × Nat)) :
    ∀ i processed, i ≤ txs.length → txs.zipIdx.drop i = rest → Processed txs i processed →
      collectGroups txs rest (classesBelow (SameTarget txs) txs.length i) processed
        = classes (SameTarget txs) txs.length := by
  induction rest with
  | nil =>
    intro i processed hle hrest _
    -- the induction is on the rest of the list, and here it is empty
    have hlength := List.drop_eq_nil_iff.mp hrest
    rw [List.length_zipIdx] at hlength
    rw [collectGroups, classes, Nat.le_antisymm hle hlength]
  | cons entry rest ih =>
    intro i processed hle hrest hprocessed
    obtain ⟨tx, j⟩ := entry
    have hdrop : txs.zipIdx.drop (i + 1) = rest := by
      rw [← List.tail_drop, hrest, List.tail_cons]
    have hhead : txs.zipIdx[i]? = some (tx, j) := by
      rw [← List.head?_drop, hrest, List.head?_cons]
    rw [List.getElem?_zipIdx, Option.map_eq_some_iff] at hhead
    obtain ⟨tx', hi, hpair⟩ := hhead
    obtain ⟨rfl, hji⟩ := Prod.mk.inj hpair
    obtain rfl : i = j := (Nat.zero_add i).symm.trans hji
    have hlt : i < txs.length := (List.getElem?_eq_some_iff.mp hi).1
    rw [collectGroups]
    by_cases hmem : i ∈ processed
    · have hnot : ¬ IsFirst (SameTarget txs) i :=
        not_isFirst_iff.mpr ((hprocessed i).mp hmem).2
      rw [if_pos hmem, ← classesBelow_succ_of_not_isFirst hnot]
      exact ih (i + 1) processed hlt hdrop (hprocessed.of_mem hmem)
    · have hfirst : IsFirst (SameTarget txs) i :=
        fun l hl hli => hmem ((hprocessed i).mpr ⟨hlt, l, hl, hli⟩)
      have hnodup : ((txs.zipIdx.drop (i + 1)).map Prod.snd).Nodup :=
        (pairwise_drop_zipIdx (i + 1)).imp Nat.ne_of_lt
      obtain ⟨hgroup, hprocessed'⟩ :=
        collectConflicts_eq tx' (txs.zipIdx.drop (i + 1)) [i] (insert i processed) hnodup
      -- what has not been processed and conflicts is the class of `i`
      have hclass := group_eq_classOf hi hmem hprocessed
      rw [if_neg hmem]
      dsimp only
      rw [hgroup, List.singleton_append, hclass, ← classesBelow_succ_of_isFirst hfirst]
      refine ih (i + 1) _ hlt hdrop (hprocessed.of_group fun j => (hprocessed' j).trans ?_)
      rw [← hclass, Finset.mem_insert, List.mem_cons, or_assoc, or_left_comm]

/-- The groups are the classes. -/
theorem analyzeTransactions_eq (txs : List Transaction) :
    analyzeTransactions txs = classes (SameTarget txs) txs.length :=
  collectGroups_eq txs.zipIdx 0 ∅ (Nat.zero_le _) rfl fun _ =>
    ⟨fun h => absurd h (Finset.notMem_empty _), fun ⟨_, l, hl, _⟩ => absurd hl (Nat.not_lt_zero l)⟩

end ConflictAnalyzer

end InterBit.EvmCompat
