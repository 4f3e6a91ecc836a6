import InterBit.Storage.TrieRun

/-!
# Which histories lose nodes

`insert_recursive`, `delete_recursive` and the merges call `nodes.remove` on
every node they replace. A node that two places of the trie share has a single
entry, and nothing counts its users, so an update below one of them can take the
entry away from the other: `sharedLeafHistory` ends in the `unwrap` of
`insert_recursive`.

`storeClosed_of_safeUpdates` is the positive side. In a history of which every
applied update is safe for the trie it meets (`Trie.SafeUpdates`), all calls
return, everything reachable from the root is filed under its own hash, and no
lookup meets a missing node.
-/

namespace InterBit.Storage

open InterBit.Lib

variable {H : Type} [DecidableEq H] {hashNode : Node H → H}

namespace MerklePatriciaTrie

/-- The hashes that a lookup of `key` from the current root visits. -/
def lookupPath (t : MerklePatriciaTrie H) (key : Key) : List H :=
  match t.root with
  | none => []
  | some root =>
    (getRecursive t.nodes (walkFuel (bytesToNibbles key)) root (bytesToNibbles key)).2

/-- Everything reachable from the root is stored under its own hash, and lookups
visit stored nodes only. -/
structure StoreClosed (hashNode : Node H → H) (t : MerklePatriciaTrie H) : Prop where
  closed : ∀ root, t.root = some root → Closed hashNode Node.Edge t.nodes root
  lookups : ∀ key, ∀ x ∈ t.lookupPath key, t.nodes x ≠ none

end MerklePatriciaTrie

omit [DecidableEq H] in
/-- The edges of a trie node lead to the nodes below it. -/
theorem edge_node {t : Trie} {y : H} (h : Node.Edge (t.node hashNode) y) :
    ∃ s, Trie.Sub s t ∧ s.digest hashNode = y := by
  cases t with
  | leaf p v => exact h.elim
  | extension p c => exact ⟨c, .extension .refl, h⟩
  | branch cs v =>
    obtain ⟨i, hi⟩ := h
    dsimp only at hi
    cases hc : cs i with
    | none =>
      rw [hc] at hi
      cases hi
    | some c =>
      rw [hc] at hi
      exact ⟨c, .branch hc .refl, Option.some.inj hi⟩

omit [DecidableEq H] in
/-- A stored trie is closed. -/
theorem Stored.closed {nodes : Nodes H} {t : Trie} (h : Stored hashNode nodes t) :
    Closed hashNode Node.Edge nodes (t.digest hashNode) := by
  refine closed_of_invariant (S := fun x => ∃ s, Trie.Sub s t ∧ s.digest hashNode = x)
    ⟨t, .refl, rfl⟩ ?_
  rintro x ⟨s, hs, rfl⟩
  refine ⟨s.node hashNode, h s hs, (Trie.digest_eq hashNode s).symm, fun y hy => ?_⟩
  obtain ⟨r, hr, rfl⟩ := edge_node hy
  exact ⟨r, hr.trans hs, rfl⟩

omit [DecidableEq H] in
theorem Represents.storeClosed {t : MerklePatriciaTrie H} {o : Option Trie}
    (h : Represents hashNode t.nodes t.root o) : t.StoreClosed hashNode := by
  cases o with
  | none =>
    have hroot : t.root = none := h.root_eq
    refine ⟨fun root hr => ?_, fun key x hx => ?_⟩
    · rw [hroot] at hr
      cases hr
    · rw [MerklePatriciaTrie.lookupPath, hroot] at hx
      exact absurd hx List.not_mem_nil
  | some s =>
    have hroot : t.root = some (s.digest hashNode) := h.root_eq
    refine ⟨fun root hr => ?_, fun key x hx => ?_⟩
    · rw [hroot] at hr
      exact Option.some.inj hr ▸ (h.stored s rfl).closed
    · rw [MerklePatriciaTrie.lookupPath, hroot] at hx
      exact (getRecursive_refines t.nodes s (bytesToNibbles key) _ (h.shape s rfl)
        (h.stored s rfl) (Trie.walkNeed_le s _)).2 x hx

/-- Safe updates lose no node: in every state that a history of them passes
through, the calls so far have returned and the store is closed. -/
theorem storeClosed_of_safeUpdates (hinj : Function.Injective hashNode) (ops : List TrieOp)
    (hsafe : Trie.SafeUpdates none (applied [] ops)) (pre : List TrieOp) (hpre : pre <+: ops) :
    ∃ t, (MerklePatriciaTrie.new : MerklePatriciaTrie H).runOps hashNode pre = (t, .ok ()) ∧
      t.StoreClosed hashNode := by
  obtain ⟨rest, rfl⟩ := hpre
  obtain ⟨us, hus⟩ := applied_prefix pre rest []
  rw [← hus] at hsafe
  obtain ⟨t, he, -, hr⟩ := runOps_new_refines hinj pre hsafe.append_left
  exact ⟨t, he, hr.storeClosed⟩

/-- Two keys in one trie, and a deletion of a third that is not there. -/
theorem storeClosed_two_keys :
    ∃ t, (MerklePatriciaTrie.new : MerklePatriciaTrie FreeHash).runOps FreeHash.mk
        [.insert [0x11] [1], .insert [0x22] [2], .delete [0x33], .commitBatch] = (t, .ok ()) ∧
      t.StoreClosed FreeHash.mk := by
  refine storeClosed_of_safeUpdates FreeHash.mk_injective _ ?_ _ (List.prefix_refl _)
  refine ⟨nofun, ?_, ?_, trivial⟩
  · rintro t ⟨⟩
    exact Or.inr ⟨trivial, fun r hr => absurd hr List.not_mem_nil⟩
  · rintro t ⟨⟩
    exact Or.inl rfl

/-- Four keys with one value: the leaves below the two branches are shared. A
deletion below one branch takes them from the other. -/
def sharedLeafHistory : List TrieOp :=
  [.insert [0x11] [1], .insert [0x12] [1], .insert [0x21] [1], .insert [0x22] [1],
    .delete [0x22], .commitBatch]

/-- Then a lookup runs into a missing node, and the next insert panics. -/
theorem sharedLeafHistory_loses_nodes :
    (¬ (MerklePatriciaTrie.new.runOps FreeHash.mk sharedLeafHistory).1.StoreClosed FreeHash.mk) ∧
    (MerklePatriciaTrie.new.runOps FreeHash.mk
      (sharedLeafHistory ++ [.insert [0x21] [2], .commitBatch])).2 = .error .panic := by
  refine ⟨fun h => ?_, by decide +kernel⟩
  have hmissing : ∃ x ∈ ((MerklePatriciaTrie.new.runOps FreeHash.mk
      sharedLeafHistory).1.lookupPath [0x21]),
        ((MerklePatriciaTrie.new.runOps FreeHash.mk sharedLeafHistory).1.nodes x).isNone := by
    decide +kernel
  obtain ⟨x, hx, hn⟩ := hmissing
  exact h.lookups [0x21] x hx (Option.isNone_iff_eq_none.mp hn)

end InterBit.Storage
