import Mathlib.Tactic.FinCases
import InterBit.Storage.TrieMap

/-!
# Whether the root is canonical

Two histories that leave the same map should leave the same root hash, and
inserting a fresh key and deleting it again should restore the root.

Both hold where the trie never holds two keys at a time
(`rootHash_of_lastUpdates`), and the second holds nowhere else. Deleting a key
that was inserted beside another one does not undo the split of that one's leaf:
- mostly the new key is not found, being left with an odd number of nibbles, and
  the split stays (`delete_splitLeaf_of_lt`);
- when the new key is a prefix of the other, the two are merged again, but by
  way of odd paths that lose nibbles (`delete_splitLeaf_end`).
-/

namespace InterBit.Storage

open InterBit.Lib
open NibblePath (fromNibbles)

namespace Trie

/-! ## Deleting what was inserted beside another key -/

variable {cs : Fin 16 → Option Trie}

theorem simplify_some_of_child {i : Fin 16} {c : Trie} (hi : cs i = some c) (w : Value) :
    simplify cs (some w) = some (.branch cs (some w)) := by
  have hmem := mem_nonEmptyChildren.mpr hi
  match hne : nonEmptyChildren cs with
  | [] =>
    rw [hne] at hmem
    exact absurd hmem List.not_mem_nil
  | [_] => simp only [simplify, hne]
  | _ :: _ :: _ => simp only [simplify, hne]

/-- A branch over leaves, with a value, keeps all its keys of even length. -/
theorem delete_branch_eq_self {w : Value} {key : List Nibble}
    (hcs : ∀ i c, cs i = some c → ∃ p u, c = .leaf p u) (heven : key.length % 2 = 0)
    (hne : key ≠ []) : delete (.branch cs (some w)) key = some (.branch cs (some w)) := by
  cases key with
  | nil => exact absurd rfl hne
  | cons i rest =>
    simp only [delete]
    cases hi : cs i with
    | none => rfl
    | some c =>
      obtain ⟨p, u, rfl⟩ := hcs i c hi
      have hp := p.toNibbles_length_even
      have hmiss : rest ≠ p.toNibbles := by
        rintro rfl
        rw [List.length_cons] at heven
        omega
      have hself : Function.update cs i (some (.leaf p u)) = cs :=
        Function.update_eq_self_iff.mpr hi.symm
      simp only [Option.isSome_some, if_true, deleteOpt_some, delete, if_neg hmiss, hself]
      exact simplify_some_of_child hi w

/-- The same below the extension of a split. -/
theorem delete_createBranch_eq_self {w : Value} {common key : List Nibble}
    (hcs : ∀ i c, cs i = some c → ∃ p u, c = .leaf p u) (heven : key.length % 2 = 0)
    (hlen : common.length < key.length) :
    delete (createBranch cs (some w) common) key = some (createBranch cs (some w) common) := by
  unfold createBranch
  split
  next =>
    obtain ⟨heven', hne⟩ := drop_fromNibbles heven hlen
    simp only [delete]
    split
    next =>
      rw [delete_branch_eq_self hcs heven' hne]
      rfl
    next => rfl
  next =>
    refine delete_branch_eq_self hcs heven ?_
    rintro rfl
    exact absurd hlen (Nat.not_lt_zero _)

/-- A key that goes on past the split is not deleted. -/
theorem delete_splitLeaf_of_lt {key : List Nibble} (existing : List Nibble) (v w : Value)
    {n : Nat} (heven : key.length % 2 = 0) (hlen : n < key.length) :
    delete (splitLeaf key v existing w n) key = some (splitLeaf key v existing w n) := by
  unfold splitLeaf
  rw [if_neg (by omega)]
  refine delete_createBranch_eq_self (fun i c hc => leafSplitChildren_eq_some hc) heven ?_
  rw [List.length_take]
  omega

theorem nonEmptyChildren_single (i : Fin 16) (c : Trie) :
    nonEmptyChildren (Function.update (fun _ => none) i (some c)) = [(i, c)] := by
  fin_cases i <;> rfl

/-- A key that ends at the split is deleted, and the other key's leaf comes back
with a path that is too short. -/
theorem delete_splitLeaf_end {key existing : List Nibble} (v w : Value)
    (hkey : key.length % 2 = 0) (hexisting : existing.length % 2 = 0)
    (hlen : key.length < existing.length) :
    ∃ q, delete (splitLeaf key v existing w key.length) key = some (.leaf q w) ∧
      q.toNibbles.length < existing.length := by
  obtain ⟨j, rest, hdrop⟩ : ∃ j rest, existing.drop key.length = j :: rest :=
    List.exists_cons_of_ne_nil (by
      intro hnil
      have hz := congrArg List.length hnil
      rw [List.length_drop, List.length_nil] at hz
      omega)
  have hrest : existing.length = key.length + (rest.length + 1) := by
    have hz := congrArg List.length hdrop
    rw [List.length_drop, List.length_cons] at hz
    omega
  have hchildren : leafSplitChildren key v existing w key.length
      = Function.update (fun _ => none) j (some (.leaf (fromNibbles rest) w)) := by
    simp only [leafSplitChildren, placeLeaf, List.drop_length, hdrop]
  have hmerge : delete (.branch (leafSplitChildren key v existing w key.length) (some v)) []
      = some (.leaf (fromNibbles (j :: (fromNibbles rest).toNibbles)) w) := by
    simp only [delete, simplify, hchildren, nonEmptyChildren_single, mergeChild]
  -- The merged path loses at least one nibble.
  have hshort : (fromNibbles (j :: (fromNibbles rest).toNibbles)).toNibbles.length ≤ rest.length := by
    have h₁ := (fromNibbles rest).toNibbles_length_even
    have h₂ := NibblePath.toNibbles_fromNibbles_length_le rest
    have h₃ := NibblePath.toNibbles_fromNibbles_length_le (j :: (fromNibbles rest).toNibbles)
    rw [List.length_cons] at h₃
    omega
  unfold splitLeaf createBranch
  rw [if_pos rfl, List.take_length]
  split
  next =>
    refine ⟨(fromNibbles key).concat (fromNibbles (j :: (fromNibbles rest).toNibbles)), ?_, ?_⟩
    · simp only [delete, NibblePath.toNibbles_fromNibbles_even hkey, List.prefix_refl, if_true,
        List.drop_length, hmerge, Option.map_some, mergeExtension]
    · rw [NibblePath.toNibbles_concat, List.length_append,
        NibblePath.toNibbles_fromNibbles_even hkey]
      omega
  next hzero =>
    have hnil : key = [] := List.eq_nil_of_length_eq_zero (by omega)
    subst hnil
    exact ⟨_, hmerge, by omega⟩

/-- A deletion that ends at the branch of a split takes nothing from its leaves. -/
theorem unshared_createBranch_end {removed : Trie → List Nibble → List Trie} {v : Option Value}
    {common : List Nibble} (heven : common.length % 2 = 0) :
    Unshared removed (createBranch cs v common) common := by
  unfold createBranch
  split
  next =>
    intro _
    rw [NibblePath.toNibbles_fromNibbles_even heven, List.drop_length]
    trivial
  next hzero =>
    have hnil : common = [] := List.eq_nil_of_length_eq_zero (by omega)
    rw [hnil]
    trivial

/-- Deleting a key right after it was inserted beside another one is a safe
update, and never gives the other key's leaf back. -/
theorem delete_insert_beside {key other : Key} (hne : key ≠ other) (v w : Value) :
    (insert (.leaf (keyPath other) w) (bytesToNibbles key) v).UpdateSafe ⟨key, none⟩ ∧
      delete (insert (.leaf (keyPath other) w) (bytesToNibbles key) v) (bytesToNibbles key)
        ≠ some (.leaf (keyPath other) w) := by
  rw [insert_leaf_of_ne hne]
  rcases commonPrefixLen_lt hne with hlt | ⟨hend, hlt⟩
  · have hself := delete_splitLeaf_of_lt (bytesToNibbles other) v w (bytesToNibbles_even key) hlt
    refine ⟨Or.inl hself, ?_⟩
    rw [hself]
    exact fun he => createBranch_ne_leaf (Option.some.inj he)
  · rw [hend] at hlt ⊢
    obtain ⟨q, hq, hshort⟩ := delete_splitLeaf_end v w (bytesToNibbles_even key)
      (bytesToNibbles_even other) hlt
    constructor
    · refine Or.inr ?_
      unfold splitLeaf
      rw [List.take_length]
      exact unshared_createBranch_end (bytesToNibbles_even key)
    · rw [hq]
      intro he
      injection Option.some.inj he with hpath _
      rw [hpath, toNibbles_keyPath] at hshort
      exact absurd hshort (Nat.lt_irrefl _)

end Trie

/-! ## Roots -/

section Histories

variable {H : Type} [DecidableEq H] {hashNode : Node H → H}

/-- Histories whose inserts are alone leave the same root hash if they leave the
same map. After such a history, inserting a fresh key and deleting it again
restores the root exactly if the map was empty. -/
theorem rootHash_of_lastUpdates (hinj : Function.Injective hashNode) (ops : List TrieOp)
    (halone : InsertsAlone (fun _ => none) (applied [] (ops ++ [.commitBatch]))) :
    (∀ ops', InsertsAlone (fun _ => none) (applied [] (ops' ++ [.commitBatch])) →
      lastUpdates ops' = lastUpdates ops →
      ∃ t t', (MerklePatriciaTrie.new : MerklePatriciaTrie H).runOps hashNode
          (ops ++ [.commitBatch]) = (t, .ok ()) ∧
        (MerklePatriciaTrie.new : MerklePatriciaTrie H).runOps hashNode
          (ops' ++ [.commitBatch]) = (t', .ok ()) ∧
        t'.rootHash = t.rootHash) ∧
    ∀ key value, lastUpdates ops key = none →
      ∃ t t', (MerklePatriciaTrie.new : MerklePatriciaTrie H).runOps hashNode
          (ops ++ [.commitBatch]) = (t, .ok ()) ∧
        (MerklePatriciaTrie.new : MerklePatriciaTrie H).runOps hashNode
          (ops ++ [.commitBatch] ++ [.insert key value, .commitBatch, .delete key, .commitBatch])
            = (t', .ok ()) ∧
        (t'.rootHash = t.rootHash ↔ ∀ k, lastUpdates ops k = none) := by
  obtain ⟨t, o, he, -, hone, hr⟩ := runOps_holdsOne hinj ops [] halone (fun _ _ => trivial)
  rw [List.append_nil] at he
  constructor
  · intro ops' halone' hlast
    obtain ⟨t', o', he', -, hone', hr'⟩ :=
      runOps_holdsOne hinj ops' [] halone' (fun _ _ => trivial)
    rw [List.append_nil] at he'
    rw [hlast] at hone'
    refine ⟨t, t', he, he', ?_⟩
    rw [MerklePatriciaTrie.rootHash, MerklePatriciaTrie.rootHash, hr.root_eq, hr'.root_eq]
    simp only [applied, List.foldl_nil]
    rw [hone'.unique hone]
  · intro key value hfresh
    -- The two updates, on the trie that the history leaves.
    have hupdates : applied [] [.insert key value, .commitBatch, .delete key, .commitBatch]
        = [⟨key, some value⟩, ⟨key, none⟩] := rfl
    by_cases hempty : ∀ k, lastUpdates ops k = none
    · obtain ⟨t', o', he', -, hone', hr'⟩ := runOps_holdsOne hinj ops
        [.insert key value, .commitBatch, .delete key, .commitBatch] halone (fun o ho => by
          rw [ho.empty hempty, hupdates]
          refine ⟨fun s hs => (by cases hs), fun s hs => ?_, trivial⟩
          exact Option.some.inj hs ▸ Trie.updateSafe_leaf _ value _)
      refine ⟨t, t', he, he', iff_of_true ?_ hempty⟩
      rw [MerklePatriciaTrie.rootHash, MerklePatriciaTrie.rootHash, hr.root_eq, hr'.root_eq]
      rw [hupdates, hone'.empty hempty, hone.empty hempty]
      have hdel : Trie.delete (.leaf (keyPath key) value) (bytesToNibbles key) = none := by
        simp only [Trie.delete, toNibbles_keyPath, if_true]
      exact congrArg (Option.map (Trie.digest hashNode)) hdel
    · obtain ⟨other, hlive⟩ := not_forall.mp hempty
      obtain ⟨w, hw⟩ := Option.ne_none_iff_exists'.mp hlive
      have hne : key ≠ other := fun hk => hlive (hk ▸ hfresh)
      obtain ⟨hsafe, hdel⟩ := Trie.delete_insert_beside hne value w
      obtain ⟨t', o', he', -, hone', hr'⟩ := runOps_holdsOne hinj ops
        [.insert key value, .commitBatch, .delete key, .commitBatch] halone (fun o ho => by
          rw [ho.leaf hw, hupdates]
          exact ⟨fun s hs => Option.some.inj hs ▸ Trie.updateSafe_leaf _ w _,
            fun s hs => Option.some.inj hs ▸ hsafe, trivial⟩)
      refine ⟨t, t', he, he', iff_of_false ?_ hempty⟩
      rw [MerklePatriciaTrie.rootHash, MerklePatriciaTrie.rootHash, hr.root_eq, hr'.root_eq]
      rw [hupdates, hone'.leaf hw, hone.leaf hw]
      intro heq
      exact hdel (Option.map_injective (Trie.digest_injective hashNode hinj) heq)

end Histories

/-- The last of `oneByOne` alone leaves the same root; the empty history does
not lose its root, and `oneByOne` does. -/
theorem rootHash_oneByOne :
    (∃ t t', (MerklePatriciaTrie.new : MerklePatriciaTrie FreeHash).runOps FreeHash.mk
        (oneByOne ++ [.commitBatch]) = (t, .ok ()) ∧
      (MerklePatriciaTrie.new : MerklePatriciaTrie FreeHash).runOps FreeHash.mk
        ([.insert [0x12] [3]] ++ [.commitBatch]) = (t', .ok ()) ∧
      t'.rootHash = t.rootHash) ∧
    ∃ t t', (MerklePatriciaTrie.new : MerklePatriciaTrie FreeHash).runOps FreeHash.mk
        (oneByOne ++ [.commitBatch]) = (t, .ok ()) ∧
      (MerklePatriciaTrie.new : MerklePatriciaTrie FreeHash).runOps FreeHash.mk
        (oneByOne ++ [.commitBatch] ++
          [.insert [0x11] [4], .commitBatch, .delete [0x11], .commitBatch]) = (t', .ok ()) ∧
      (t'.rootHash = t.rootHash ↔ ∀ k, lastUpdates oneByOne k = none) := by
  have h := rootHash_of_lastUpdates FreeHash.mk_injective oneByOne insertsAlone_oneByOne
  refine ⟨h.1 [.insert [0x12] [3]] ⟨fun _ _ _ => rfl, trivial⟩ ?_, h.2 [0x11] [4] (by decide)⟩
  funext key
  simp [lastUpdates, oneByOne, TrieOp.set, Function.update_apply]

/-- A key beside another one, inserted and deleted: the map is as before, the
root is not. -/
theorem rootHash_insert_delete_ne :
    lastUpdates [.insert [0x11] [1], .commitBatch, .insert [0x12] [2], .commitBatch,
        .delete [0x12]] = lastUpdates [.insert [0x11] [1]] ∧
    (MerklePatriciaTrie.new.runOps FreeHash.mk [.insert [0x11] [1], .commitBatch,
      .insert [0x12] [2], .commitBatch, .delete [0x12], .commitBatch]).1.rootHash
      ≠ (MerklePatriciaTrie.new.runOps FreeHash.mk
          [.insert [0x11] [1], .commitBatch]).1.rootHash := by
  refine ⟨?_, by decide +kernel⟩
  funext key
  by_cases h : key = [0x12]
  · simp [lastUpdates, TrieOp.set, h]
  · simp [lastUpdates, TrieOp.set, h]

end InterBit.Storage
