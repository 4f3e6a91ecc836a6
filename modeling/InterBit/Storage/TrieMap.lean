import InterBit.Storage.TrieRun

/-!
# The trie as a map from keys to values

`lastUpdates` is what a history should leave in the map: for each key, the value
of its last `insert`, or nothing after a `delete`. Sorting a batch by key does
not change it, because only updates of different keys are exchanged
(`foldl_set_insertionSort`).

The trie answers accordingly as long as it never has to hold two keys at a time
(`InsertsAlone`): `get_eq_lastUpdates`. It fails with the first insert beside
another key. The split puts what is left of a key below a branch into a leaf at
an odd depth, and since keys have an even number of nibbles, an odd number of
them is left there, which `NibblePath` does not give back. So the longer one of
the two keys is not found (`lookup_createBranch_eq_none`).
-/

namespace InterBit.Storage

open InterBit.Lib
open NibblePath (fromNibbles)

/-- The update of a map from keys to values. -/
def BatchUpdate.set (m : Key → Option Value) (u : BatchUpdate) : Key → Option Value :=
  Function.update m u.key u.value

/-- What a call does to the map that the trie stands for. -/
def TrieOp.set (m : Key → Option Value) : TrieOp → (Key → Option Value)
  | .insert key value => Function.update m key (some value)
  | .delete key => Function.update m key none
  | .commitBatch => m

/-- The value of the last update of each key in a history. -/
def lastUpdates (ops : List TrieOp) : Key → Option Value :=
  ops.foldl TrieOp.set fun _ => none

/-! ## The order of a batch -/

theorem foldl_set_orderedInsert (u : BatchUpdate) (us : List BatchUpdate) :
    ∀ m, (us.orderedInsert MerklePatriciaTrie.keyLe u).foldl BatchUpdate.set m
      = (u :: us).foldl BatchUpdate.set m := by
  induction us with
  | nil => exact fun m => rfl
  | cons w us ih =>
    intro m
    rw [List.orderedInsert_cons]
    split
    next => rfl
    next hle =>
      have hne : u.key ≠ w.key := by
        intro he
        apply hle
        unfold MerklePatriciaTrie.keyLe
        rw [he]
        exact List.le_refl _
      rw [List.foldl_cons, ih]
      simp only [List.foldl_cons, BatchUpdate.set]
      rw [Function.update_comm hne]

/-- Sorting a batch by key leaves the same map. -/
theorem foldl_set_insertionSort (us : List BatchUpdate) :
    ∀ m, (us.insertionSort MerklePatriciaTrie.keyLe).foldl BatchUpdate.set m
      = us.foldl BatchUpdate.set m := by
  induction us with
  | nil => exact fun m => rfl
  | cons u us ih =>
    intro m
    rw [List.insertionSort_cons, foldl_set_orderedInsert, List.foldl_cons, List.foldl_cons, ih]

/-- What is applied in a history that ends with a commit leaves the map of the
history. -/
theorem foldl_set_applied (ops : List TrieOp) : ∀ (pending : List BatchUpdate)
    (m : Key → Option Value),
    (applied pending (ops ++ [TrieOp.commitBatch])).foldl BatchUpdate.set m
      = ops.foldl TrieOp.set (pending.foldl BatchUpdate.set m) := by
  induction ops with
  | nil =>
    intro pending m
    simp only [List.nil_append, applied, List.append_nil, List.foldl_nil]
    exact foldl_set_insertionSort pending m
  | cons op ops ih =>
    intro pending m
    -- What is queued last is set last.
    have hsnoc : ∀ key value,
        (pending ++ [BatchUpdate.mk key value]).foldl BatchUpdate.set m
          = Function.update (pending.foldl BatchUpdate.set m) key value := by
      intro key value
      rw [List.foldl_append]
      rfl
    cases op with
    | insert key value =>
      simp only [List.cons_append, applied, List.foldl_cons, TrieOp.set]
      split
      next =>
        rw [List.foldl_append, foldl_set_insertionSort, ih, hsnoc]
        rfl
      next => rw [ih, hsnoc]
    | delete key =>
      simp only [List.cons_append, applied, List.foldl_cons, TrieOp.set]
      rw [ih, hsnoc]
    | commitBatch =>
      simp only [List.cons_append, applied, List.foldl_cons, TrieOp.set]
      rw [List.foldl_append, foldl_set_insertionSort, ih]
      rfl

/-- A history that goes on after a commit. -/
theorem applied_append_commit (ops rest : List TrieOp) : ∀ pending : List BatchUpdate,
    applied pending (ops ++ [TrieOp.commitBatch] ++ rest)
      = applied pending (ops ++ [TrieOp.commitBatch]) ++ applied [] rest := by
  induction ops with
  | nil =>
    intro pending
    simp only [List.nil_append, List.cons_append, applied, List.append_nil]
  | cons op ops ih =>
    intro pending
    cases op with
    | insert key value =>
      simp only [List.cons_append, applied]
      split
      next => rw [ih, List.append_assoc]
      next => rw [ih]
    | delete key =>
      simp only [List.cons_append, applied]
      rw [ih]
    | commitBatch =>
      simp only [List.cons_append, applied]
      rw [ih, List.append_assoc]

/-! ## One key at a time -/

/-- Each insert finds no other key in the map. -/
def InsertsAlone : (Key → Option Value) → List BatchUpdate → Prop
  | _, [] => True
  | m, u :: us =>
    (u.value ≠ none → ∀ key, key ≠ u.key → m key = none) ∧ InsertsAlone (u.set m) us

/-- The encoding of a whole key. -/
def keyPath (key : Key) : NibblePath := fromNibbles (bytesToNibbles key)

theorem bytesToNibbles_even (key : Key) : (bytesToNibbles key).length % 2 = 0 := by
  rw [bytesToNibbles_length]
  omega

@[simp] theorem toNibbles_keyPath (key : Key) : (keyPath key).toNibbles = bytesToNibbles key :=
  NibblePath.toNibbles_fromNibbles_even (bytesToNibbles_even key)

/-- The trie of a map with at most one key: nothing, or a leaf. -/
def HoldsOne (m : Key → Option Value) (o : Option Trie) : Prop :=
  (m = fun _ => none) ∧ o = none ∨
    ∃ key value, m = Function.update (fun _ => none) key (some value) ∧
      o = some (.leaf (keyPath key) value)

theorem holdsOne_empty : HoldsOne (fun _ => none) none := Or.inl ⟨rfl, rfl⟩

variable {m : Key → Option Value} {o : Option Trie}

/-- A map that holds a key has a leaf for a trie. -/
theorem HoldsOne.leaf (h : HoldsOne m o) {key : Key} {value : Value} (hm : m key = some value) :
    o = some (.leaf (keyPath key) value) := by
  rcases h with ⟨rfl, -⟩ | ⟨k, v, rfl, ho⟩
  · cases hm
  · by_cases hk : key = k
    · subst hk
      rw [Function.update_self] at hm
      rw [ho, Option.some.inj hm]
    · rw [Function.update_of_ne hk] at hm
      cases hm

theorem HoldsOne.empty (h : HoldsOne m o) (hm : ∀ key, m key = none) : o = none := by
  rcases h with ⟨-, ho⟩ | ⟨k, v, rfl, -⟩
  · exact ho
  · have hk := hm k
    rw [Function.update_self] at hk
    cases hk

/-- The map determines the trie. -/
theorem HoldsOne.unique {o o' : Option Trie} (h : HoldsOne m o) (h' : HoldsOne m o') : o = o' := by
  by_cases hm : ∀ key, m key = none
  · rw [h.empty hm, h'.empty hm]
  · obtain ⟨key, hkey⟩ := not_forall.mp hm
    obtain ⟨value, hv⟩ := Option.ne_none_iff_exists'.mp hkey
    rw [h.leaf hv, h'.leaf hv]

/-- Such a trie finds what the map holds. -/
theorem HoldsOne.lookup (h : HoldsOne m o) (key : Key) :
    Trie.lookupOpt o (bytesToNibbles key) = m key := by
  rcases h with ⟨rfl, rfl⟩ | ⟨k, v, rfl, rfl⟩
  · rfl
  · simp only [Trie.lookupOpt_some, Trie.lookup, toNibbles_keyPath]
    by_cases hk : key = k
    · subst hk
      rw [if_pos rfl, Function.update_self]
    · rw [if_neg (fun he => hk (bytesToNibbles_injective he)), Function.update_of_ne hk]

namespace Trie

/-- No update of a leaf removes a node that is still needed. -/
theorem updateSafe_leaf (p : NibblePath) (v : Value) (u : BatchUpdate) :
    (Trie.leaf p v).UpdateSafe u := by
  refine Or.inr ?_
  split
  next value _ =>
    refine ⟨trivial, fun r hr => ?_⟩
    simp only [removedByInsert, built] at hr ⊢
    split at hr
    next hc =>
      rw [if_pos hc]
      exact List.not_mem_nil
    next => exact absurd hr List.not_mem_nil
  next => trivial

theorem insert_leaf_self (key : Key) (v w : Value) :
    insert (.leaf (keyPath key) v) (bytesToNibbles key) w = .leaf (keyPath key) w := by
  have hlen := (commonPrefixLen_eq_length_iff (bytesToNibbles key) _).mpr (List.prefix_refl _)
  simp only [insert, toNibbles_keyPath]
  rw [if_pos ⟨hlen, hlen⟩]

/-- An insert beside another key splits its leaf. -/
theorem insert_leaf_of_ne {key other : Key} (hne : key ≠ other) (v w : Value) :
    insert (.leaf (keyPath other) w) (bytesToNibbles key) v
      = splitLeaf (bytesToNibbles key) v (bytesToNibbles other) w
          (commonPrefixLen (bytesToNibbles key) (bytesToNibbles other)) := by
  simp only [insert, toNibbles_keyPath]
  rw [if_neg]
  rintro ⟨h₁, h₂⟩
  have hpre := (commonPrefixLen_eq_length_iff _ _).mp h₁
  exact hne (bytesToNibbles_injective (hpre.eq_of_length (h₁.symm.trans h₂))).symm

end Trie

/-- One applied update, with no other key in the way of an insert. -/
theorem HoldsOne.update (h : HoldsOne m o) (u : BatchUpdate)
    (hu : u.value ≠ none → ∀ key, key ≠ u.key → m key = none) :
    (∀ t, o = some t → t.UpdateSafe u) ∧ HoldsOne (u.set m) (Trie.update o u) := by
  obtain ⟨key, value⟩ := u
  rcases h with ⟨rfl, rfl⟩ | ⟨k, v, rfl, rfl⟩
  · refine ⟨nofun, ?_⟩
    cases value with
    | none => exact Or.inl ⟨Function.update_eq_self_iff.mpr rfl, rfl⟩
    | some w => exact Or.inr ⟨key, w, rfl, rfl⟩
  -- There is one leaf: the update is at its key, or it deletes at another one.
  · refine ⟨fun t ht => Option.some.inj ht ▸ Trie.updateSafe_leaf _ v _, ?_⟩
    simp only [BatchUpdate.set]
    by_cases hk : k = key
    · subst hk
      rw [Function.update_idem]
      cases value with
      | none =>
        refine Or.inl ⟨Function.update_eq_self_iff.mpr rfl, ?_⟩
        simp only [Trie.update, Trie.deleteOpt_some, Trie.delete, toNibbles_keyPath, if_true]
      | some w =>
        refine Or.inr ⟨k, w, rfl, ?_⟩
        simp only [Trie.update, Trie.insertOpt_some, Trie.insert_leaf_self]
    -- An insert beside another key is excluded.
    · cases value with
      | some w =>
        have hnone := hu (Option.some_ne_none w) k hk
        rw [Function.update_self] at hnone
        cases hnone
      | none =>
        refine Or.inr ⟨k, v, Function.update_eq_self_iff.mpr ?_, ?_⟩
        · rw [Function.update_of_ne (Ne.symm hk)]
        · simp only [Trie.update, Trie.deleteOpt_some, Trie.delete, toNibbles_keyPath]
          rw [if_neg (fun he => hk (bytesToNibbles_injective he).symm)]

/-- All applied updates. -/
theorem HoldsOne.updates (us : List BatchUpdate) : ∀ {m : Key → Option Value} {o : Option Trie},
    HoldsOne m o → InsertsAlone m us →
      Trie.SafeUpdates o us ∧ HoldsOne (us.foldl BatchUpdate.set m) (us.foldl Trie.update o) := by
  induction us with
  | nil => exact fun h _ => ⟨trivial, h⟩
  | cons u us ih =>
    intro m o h halone
    obtain ⟨hsafe, hone⟩ := h.update u halone.1
    obtain ⟨hsafes, hones⟩ := ih hone halone.2
    exact ⟨⟨hsafe, hsafes⟩, hones⟩

/-! ## Two keys -/

namespace Trie

/-- An even number of nibbles does not lead through a branch over leaves: an odd
number is left for the leaf, and no decoded path is odd. -/
theorem lookup_branch_eq_none {cs : Fin 16 → Option Trie} {v : Option Value} {key : List Nibble}
    (hcs : ∀ i c, cs i = some c → ∃ p w, c = .leaf p w) (heven : key.length % 2 = 0)
    (hne : key ≠ []) : lookup (.branch cs v) key = none := by
  cases key with
  | nil => exact absurd rfl hne
  | cons i rest =>
    simp only [lookup]
    cases hi : cs i with
    | none => rfl
    | some c =>
      obtain ⟨p, w, rfl⟩ := hcs i c hi
      have hp := p.toNibbles_length_even
      simp only [lookupOpt_some, lookup]
      rw [if_neg]
      intro he
      rw [← he] at hp
      rw [List.length_cons] at heven
      omega

/-- Past the extension of a split, a longer key of even length has an even number
of nibbles left. -/
theorem drop_fromNibbles {common key : List Nibble} (heven : key.length % 2 = 0)
    (hlen : common.length < key.length) :
    (key.drop (fromNibbles common).toNibbles.length).length % 2 = 0 ∧
      key.drop (fromNibbles common).toNibbles.length ≠ [] := by
  have hp := (fromNibbles common).toNibbles_length_even
  have hle := NibblePath.toNibbles_fromNibbles_length_le common
  refine ⟨?_, fun hnil => ?_⟩
  · rw [List.length_drop]
    omega
  · have hz := congrArg List.length hnil
    rw [List.length_drop, List.length_nil] at hz
    omega

/-- The same for the branch of a split with its extension, for a key that goes
on past the common prefix. -/
theorem lookup_createBranch_eq_none {cs : Fin 16 → Option Trie} {v : Option Value}
    {common key : List Nibble} (hcs : ∀ i c, cs i = some c → ∃ p w, c = .leaf p w)
    (heven : key.length % 2 = 0) (hlen : common.length < key.length) :
    lookup (createBranch cs v common) key = none := by
  unfold createBranch
  split
  next =>
    obtain ⟨heven', hne⟩ := drop_fromNibbles heven hlen
    simp only [lookup]
    split
    next => exact lookup_branch_eq_none hcs heven' hne
    next => rfl
  next =>
    refine lookup_branch_eq_none hcs heven ?_
    rintro rfl
    exact absurd hlen (Nat.not_lt_zero _)

/-- Of two keys in one split, the longer one is not found; if they are equally
long, neither is. -/
theorem lookup_splitLeaf_eq_none {key existing key' : List Nibble} {v w : Value} {n : Nat}
    (heven : key'.length % 2 = 0) (hlen : n < key'.length) :
    lookup (splitLeaf key v existing w n) key' = none := by
  refine lookup_createBranch_eq_none (fun i c hc => leafSplitChildren_eq_some hc) heven ?_
  rw [List.length_take]
  omega

end Trie

/-- The common prefix of two different keys ends before one of them does. -/
theorem commonPrefixLen_lt {key key' : Key} (hne : key ≠ key') :
    commonPrefixLen (bytesToNibbles key) (bytesToNibbles key') < (bytesToNibbles key).length ∨
      commonPrefixLen (bytesToNibbles key) (bytesToNibbles key') = (bytesToNibbles key).length ∧
      commonPrefixLen (bytesToNibbles key) (bytesToNibbles key') < (bytesToNibbles key').length := by
  have hleft := commonPrefixLen_le_left (bytesToNibbles key) (bytesToNibbles key')
  have hright := commonPrefixLen_le_right (bytesToNibbles key) (bytesToNibbles key')
  rcases Nat.lt_or_ge (commonPrefixLen (bytesToNibbles key) (bytesToNibbles key'))
    (bytesToNibbles key).length with hlt | hge
  · exact Or.inl hlt
  · refine Or.inr ⟨Nat.le_antisymm hleft hge, Nat.lt_of_le_of_ne hright fun he => hne ?_⟩
    have hpre := (commonPrefixLen_eq_length_iff _ _).mp he
    exact (bytesToNibbles_injective (hpre.eq_of_length_le (by omega))).symm

/-- With another key in the trie, an insert leaves one of the two unanswered. -/
theorem lookup_insert_leaf_ne {key other : Key} (hne : key ≠ other) (v w : Value) :
    Trie.lookup (Trie.insert (.leaf (keyPath other) w) (bytesToNibbles key) v)
        (bytesToNibbles key) = none ∨
      Trie.lookup (Trie.insert (.leaf (keyPath other) w) (bytesToNibbles key) v)
        (bytesToNibbles other) = none := by
  rw [Trie.insert_leaf_of_ne hne]
  rcases commonPrefixLen_lt hne with hlt | ⟨-, hlt⟩
  · exact Or.inl (Trie.lookup_splitLeaf_eq_none (bytesToNibbles_even key) hlt)
  · exact Or.inr (Trie.lookup_splitLeaf_eq_none (bytesToNibbles_even other) hlt)

/-! ## Histories -/

section Histories

variable {H : Type} [DecidableEq H] {hashNode : Node H → H}

omit [DecidableEq H] in
/-- `get` with nothing cached is the lookup in the tree. -/
theorem Represents.get [DecidableEq H] {t : MerklePatriciaTrie H} {o : Option Trie}
    (h : Represents hashNode t.nodes t.root o) (hcache : t.cache.paths = ∅) (hashKey : Key → H)
    (order : List Key) (key : Key) :
    (t.get hashKey order key).1 = Trie.lookupOpt o (bytesToNibbles key) := by
  have hmiss : t.cache.getPath key = none := by
    rw [PathCache.getPath, hcache]
    rfl
  unfold MerklePatriciaTrie.get
  rw [hmiss]
  dsimp only
  cases o with
  | none =>
    have hroot : t.root = none := h.root_eq
    rw [hroot]
    rfl
  | some s =>
    have hroot : t.root = some (s.digest hashNode) := h.root_eq
    have hl := (getRecursive_refines t.nodes s (bytesToNibbles key) _ (h.shape s rfl)
      (h.stored s rfl) (Trie.walkNeed_le s _)).1
    rw [hroot, Trie.lookupOpt_some, ← hl]
    dsimp only
    split <;> (rename_i heq; rw [heq])

/-- A history whose inserts are alone, and calls after it whose updates are safe
for the one leaf or nothing that it leaves. -/
theorem runOps_holdsOne (hinj : Function.Injective hashNode) (ops rest : List TrieOp)
    (halone : InsertsAlone (fun _ => none) (applied [] (ops ++ [TrieOp.commitBatch])))
    (hsafe : ∀ o, HoldsOne (lastUpdates ops) o → Trie.SafeUpdates o (applied [] rest)) :
    ∃ t o, (MerklePatriciaTrie.new : MerklePatriciaTrie H).runOps hashNode
        (ops ++ [TrieOp.commitBatch] ++ rest) = (t, .ok ()) ∧ t.cache.paths = ∅ ∧
      HoldsOne (lastUpdates ops) o ∧
      Represents hashNode t.nodes t.root ((applied [] rest).foldl Trie.update o) := by
  obtain ⟨hsafe₁, hone⟩ := holdsOne_empty.updates _ halone
  rw [foldl_set_applied] at hone
  have hall : Trie.SafeUpdates none (applied [] (ops ++ [TrieOp.commitBatch] ++ rest)) := by
    rw [applied_append_commit]
    exact hsafe₁.append (hsafe _ hone)
  obtain ⟨t, he, hc, hr⟩ := runOps_new_refines hinj _ hall
  rw [applied_append_commit, List.foldl_append] at hr
  exact ⟨t, _, he, hc, hone, hr⟩

/-- The trie is a map as long as it holds one key at a time: then every `get`
after a commit returns the value of the key's last update. An insert beside
another key ends that at once. -/
theorem get_eq_lastUpdates (hinj : Function.Injective hashNode) (ops : List TrieOp)
    (halone : InsertsAlone (fun _ => none) (applied [] (ops ++ [.commitBatch])))
    (hashKey : Key → H) (order : List Key) :
    (∃ t, (MerklePatriciaTrie.new : MerklePatriciaTrie H).runOps hashNode
        (ops ++ [.commitBatch]) = (t, .ok ()) ∧
      ∀ key, (t.get hashKey order key).1 = lastUpdates ops key) ∧
    ∀ key value, (∃ other, other ≠ key ∧ lastUpdates ops other ≠ none) →
      ∃ t, (MerklePatriciaTrie.new : MerklePatriciaTrie H).runOps hashNode
          (ops ++ [.commitBatch] ++ [.insert key value, .commitBatch]) = (t, .ok ()) ∧
        ∃ k, (t.get hashKey order k).1 ≠ lastUpdates (ops ++ [.insert key value]) k := by
  constructor
  · obtain ⟨t, o, he, hc, hone, hr⟩ := runOps_holdsOne hinj ops [] halone (fun _ _ => trivial)
    rw [List.append_nil] at he
    refine ⟨t, he, fun key => ?_⟩
    rw [hr.get hc]
    exact hone.lookup key
  · rintro key value ⟨other, hne, hlive⟩
    obtain ⟨w, hw⟩ := Option.ne_none_iff_exists'.mp hlive
    obtain ⟨t, o, he, hc, hone, hr⟩ := runOps_holdsOne hinj ops [.insert key value, .commitBatch]
      halone (fun o hone => ⟨fun t ht => by
        rw [hone.leaf hw] at ht
        exact Option.some.inj ht ▸ Trie.updateSafe_leaf _ w _, trivial⟩)
    rw [hone.leaf hw] at hr
    have hlast : ∀ k, lastUpdates (ops ++ [TrieOp.insert key value]) k
        = Function.update (lastUpdates ops) key (some value) k := by
      intro k
      rw [lastUpdates, List.foldl_append]
      rfl
    refine ⟨t, he, ?_⟩
    rcases lookup_insert_leaf_ne (Ne.symm hne) value w with hnone | hnone
    · refine ⟨key, ?_⟩
      rw [hr.get hc, hlast, Function.update_self]
      exact fun h => absurd (hnone.symm.trans h) nofun
    · refine ⟨other, ?_⟩
      rw [hr.get hc, hlast, Function.update_of_ne hne, hw]
      exact fun h => absurd (hnone.symm.trans h) nofun

end Histories

/-- A key is overwritten and deleted before the next one comes. -/
def oneByOne : List TrieOp :=
  [.insert [0x11] [1], .insert [0x11] [2], .delete [0x11], .commitBatch, .insert [0x12] [3]]

theorem insertsAlone_oneByOne :
    InsertsAlone (fun _ => none) (applied [] (oneByOne ++ [TrieOp.commitBatch])) := by
  refine ⟨fun _ _ _ => rfl, fun _ key hk => ?_, nofun, fun _ key _ => ?_, trivial⟩
  · exact Function.update_of_ne hk ..
  · simp [BatchUpdate.set, Function.update_apply]

theorem get_eq_lastUpdates_oneByOne :
    (∃ t, (MerklePatriciaTrie.new : MerklePatriciaTrie FreeHash).runOps FreeHash.mk
        (oneByOne ++ [.commitBatch]) = (t, .ok ()) ∧
      ∀ key, (t.get (fun _ => FreeHash.mk .empty) [] key).1 = lastUpdates oneByOne key) ∧
    ∃ t, (MerklePatriciaTrie.new : MerklePatriciaTrie FreeHash).runOps FreeHash.mk
        (oneByOne ++ [.commitBatch] ++ [.insert [0x11] [4], .commitBatch]) = (t, .ok ()) ∧
      ∃ k, (t.get (fun _ => FreeHash.mk .empty) [] k).1
        ≠ lastUpdates (oneByOne ++ [.insert [0x11] [4]]) k := by
  have h := get_eq_lastUpdates FreeHash.mk_injective oneByOne insertsAlone_oneByOne
    (fun _ => .mk .empty) []
  exact ⟨h.1, h.2 [0x11] [4] ⟨[0x12], by decide, by decide⟩⟩

/-- Two keys with a common first nibble: neither is found. -/
theorem get_two_keys_none :
    lastUpdates [.insert [0x11] [1], .insert [0x12] [2]] [0x11] = some [1] ∧
    (MerklePatriciaTrie.new.runOps FreeHash.mk
      [.insert [0x11] [1], .insert [0x12] [2], .commitBatch]).2 = .ok () ∧
    ((MerklePatriciaTrie.new.runOps FreeHash.mk
      [.insert [0x11] [1], .insert [0x12] [2], .commitBatch]).1.get
        (fun _ => FreeHash.mk .empty) [] [0x11]).1 = none ∧
    ((MerklePatriciaTrie.new.runOps FreeHash.mk
      [.insert [0x11] [1], .insert [0x12] [2], .commitBatch]).1.get
        (fun _ => FreeHash.mk .empty) [] [0x12]).1 = none := by
  decide +kernel

end InterBit.Storage
