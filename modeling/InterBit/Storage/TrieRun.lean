import InterBit.Storage.TrieRefine

/-!
# Histories of a trie

A history is a list of `insert`, `delete` and `commit_batch` calls on a new
trie. Only commits touch the nodes: `applied` lists the updates in the order in
which they reach them, batch by batch (a commit is also forced by the hundredth
pending update), each batch sorted by key.

`runOps_refines` lifts the refinement of single updates to histories. As long
as every applied update is safe for the trie it meets (`SafeUpdates`), all
calls return, and the final map holds the tree obtained by `Trie.update` from
one applied update after the other.
-/

namespace InterBit.Storage

open InterBit.Lib

/-- The updates of a history in the order in which commits apply them, given
those already pending. -/
def applied : List BatchUpdate → List TrieOp → List BatchUpdate
  | _, [] => []
  | pending, .insert key value :: ops =>
    if (pending ++ [BatchUpdate.mk key (some value)]).length ≥ 100 then
      (pending ++ [BatchUpdate.mk key (some value)]).insertionSort MerklePatriciaTrie.keyLe ++ applied [] ops
    else applied (pending ++ [BatchUpdate.mk key (some value)]) ops
  | pending, .delete key :: ops => applied (pending ++ [BatchUpdate.mk key none]) ops
  | pending, .commitBatch :: ops =>
    pending.insertionSort MerklePatriciaTrie.keyLe ++ applied [] ops

/-- What a prefix of a history applies is a prefix of what the history applies. -/
theorem applied_prefix (pre rest : List TrieOp) : ∀ pending : List BatchUpdate,
    applied pending pre <+: applied pending (pre ++ rest) := by
  induction pre with
  | nil => exact fun pending => List.nil_prefix
  | cons op pre ih =>
    intro pending
    cases op with
    | insert key value =>
      rw [List.cons_append]
      unfold applied
      split
      next => exact (List.prefix_append_right_inj _).mpr (ih [])
      next => exact ih _
    | delete key => exact ih _
    | commitBatch => exact (List.prefix_append_right_inj _).mpr (ih [])

namespace Trie

/-- The tree after one applied update. -/
def update (o : Option Trie) (u : BatchUpdate) : Option Trie :=
  match u.value with
  | some value => some (insertOpt o (bytesToNibbles u.key) value)
  | none => deleteOpt o (bytesToNibbles u.key)

/-- The update changes nothing, or it takes nothing out of the map that another
place of `t` needs, and does not build a node of its own path again. -/
def UpdateSafe (t : Trie) (u : BatchUpdate) : Prop :=
  update (some t) u = some t ∨
    match u.value with
    | some value =>
      Unshared removedByInsert t (bytesToNibbles u.key) ∧
        ∀ r ∈ removedByInsert t (bytesToNibbles u.key), r ∉ built t (bytesToNibbles u.key) value
    | none => Unshared removedByDelete t (bytesToNibbles u.key)

/-- Every update is safe for the tree it meets. -/
def SafeUpdates : Option Trie → List BatchUpdate → Prop
  | _, [] => True
  | o, u :: us => (∀ t, o = some t → t.UpdateSafe u) ∧ SafeUpdates (update o u) us

theorem SafeUpdates.append_left {us ws : List BatchUpdate} : ∀ {o : Option Trie},
    SafeUpdates o (us ++ ws) → SafeUpdates o us := by
  induction us with
  | nil => exact fun _ => trivial
  | cons u us ih => exact fun h => ⟨h.1, ih h.2⟩

theorem SafeUpdates.append_right {us ws : List BatchUpdate} : ∀ {o : Option Trie},
    SafeUpdates o (us ++ ws) → SafeUpdates (us.foldl update o) ws := by
  induction us with
  | nil => exact fun h => h
  | cons u us ih => exact fun h => ih h.2

theorem SafeUpdates.append {us ws : List BatchUpdate} : ∀ {o : Option Trie},
    SafeUpdates o us → SafeUpdates (us.foldl update o) ws → SafeUpdates o (us ++ ws) := by
  induction us with
  | nil => exact fun _ h => h
  | cons u us ih => exact fun h hw => ⟨h.1, ih h.2 hw⟩

end Trie

section Refinement

variable {H : Type} [DecidableEq H] {hashNode : Node H → H}

/-- The map and the root hash stand for the tree `o`. -/
structure Represents (hashNode : Node H → H) (nodes : Nodes H) (root : Option H)
    (o : Option Trie) : Prop where
  root_eq : root = o.map (Trie.digest hashNode)
  stored : ∀ t, o = some t → Stored hashNode nodes t
  shape : ∀ t, o = some t → t.Shape

omit [DecidableEq H] in
theorem represents_none (nodes : Nodes H) : Represents hashNode nodes none none :=
  ⟨rfl, nofun, nofun⟩

variable (hinj : Function.Injective hashNode)
include hinj

/-- One round of the loop in `commit_batch`. -/
theorem applyUpdate_refines {nodes : Nodes H} {root : Option H} {o : Option Trie}
    (hr : Represents hashNode nodes root o) (u : BatchUpdate)
    (hu : ∀ t, o = some t → t.UpdateSafe u) :
    ∃ nodes' root', MerklePatriciaTrie.applyUpdate hashNode nodes root u = (nodes', .ok root') ∧
      Represents hashNode nodes' root' (Trie.update o u) := by
  obtain ⟨key, value⟩ := u
  obtain ⟨rfl, hs, hsh⟩ := hr
  cases o with
  | none =>
    cases value with
    | none => exact ⟨nodes, none, rfl, represents_none nodes⟩
    | some v =>
      refine ⟨_, _, rfl, rfl, ?_, ?_⟩
      · rintro t ⟨⟩
        exact stored_leaf (has_insert nodes (.leaf (NibblePath.fromNibbles (bytesToNibbles key)) v))
      · rintro t ⟨⟩
        exact Trie.shape_leaf _ v
  | some t =>
    have hfuel := Trie.walkNeed_le t (bytesToNibbles key)
    -- an update that changes nothing takes the same nodes out and puts them back
    rcases hu t rfl with hidle | hsafe
    · refine ⟨nodes, some (t.digest hashNode), ?_, by rw [hidle]; exact ⟨rfl, hs, hsh⟩⟩
      cases value with
      | none => exact deleteRecursive_idle hinj t _ _ nodes (hsh t rfl) (hs t rfl) hfuel hidle
      | some v =>
        exact insertRecursive_idle t _ v _ nodes (hsh t rfl) (hs t rfl) hfuel (Option.some.inj hidle)
    · cases value with
      | none =>
        obtain ⟨n', he, hs', -⟩ := deleteRecursive_refines hinj t (bytesToNibbles key) _ nodes
          (hsh t rfl) (hs t rfl) hfuel hsafe
        exact ⟨n', _, he, rfl, hs', fun t' ht => Trie.shape_delete (hsh t rfl) ht⟩
      | some v =>
        obtain ⟨hun, hb⟩ := hsafe
        obtain ⟨n', he, hs', -⟩ := insertRecursive_refines hinj t (bytesToNibbles key) v _ nodes
          (hsh t rfl) (hs t rfl) hfuel hun (Trie.notRebuilt_of_built t _ v hb)
        refine ⟨n', _, he, rfl, ?_, ?_⟩
        · rintro t' ⟨⟩
          exact hs'
        · rintro t' ⟨⟩
          exact Trie.shape_insert (hsh t rfl) _ v

/-- The loop of `commit_batch`. -/
theorem applyUpdates_refines (us : List BatchUpdate) : ∀ {nodes : Nodes H} {root : Option H}
    {o : Option Trie}, Represents hashNode nodes root o → Trie.SafeUpdates o us →
      ∃ nodes' root', MerklePatriciaTrie.applyUpdates hashNode nodes root us
          = (nodes', root', .ok ()) ∧
        Represents hashNode nodes' root' (us.foldl Trie.update o) := by
  induction us with
  | nil => exact fun hr _ => ⟨_, _, rfl, hr⟩
  | cons u us ih =>
    intro nodes root o hr hsafe
    obtain ⟨n₁, r₁, he₁, hr₁⟩ := applyUpdate_refines hinj hr u hsafe.1
    obtain ⟨n₂, r₂, he₂, hr₂⟩ := ih hr₁ hsafe.2
    refine ⟨n₂, r₂, ?_, hr₂⟩
    rw [MerklePatriciaTrie.applyUpdates, he₁]
    exact he₂

/-- `commit_batch` applies what is pending, in key order, and leaves an empty
cache empty. -/
theorem commitBatch_refines (t : MerklePatriciaTrie H) {o : Option Trie}
    (hr : Represents hashNode t.nodes t.root o) (hcache : t.cache.paths = ∅)
    (hsafe : Trie.SafeUpdates o (t.batchUpdates.insertionSort MerklePatriciaTrie.keyLe)) :
    ∃ t', t.commitBatch hashNode = (t', .ok ()) ∧ t'.batchUpdates = [] ∧ t'.cache.paths = ∅ ∧
      Represents hashNode t'.nodes t'.root
        ((t.batchUpdates.insertionSort MerklePatriciaTrie.keyLe).foldl Trie.update o) := by
  obtain ⟨n', r', he, hr'⟩ := applyUpdates_refines hinj _ hr hsafe
  unfold MerklePatriciaTrie.commitBatch
  dsimp only
  split
  next hnil =>
    refine ⟨_, rfl, rfl, hcache, ?_⟩
    rw [hnil]
    exact hr
  next =>
    rw [he]
    exact ⟨_, rfl, rfl, rfl, hr'⟩

/-- A history whose applied updates are safe: every call returns, and the map
ends up standing for the tree of the applied updates. -/
theorem runOps_refines (ops : List TrieOp) : ∀ (t : MerklePatriciaTrie H) (o : Option Trie),
    Represents hashNode t.nodes t.root o → t.cache.paths = ∅ →
      Trie.SafeUpdates o (applied t.batchUpdates ops) →
      ∃ t', t.runOps hashNode ops = (t', .ok ()) ∧ t'.cache.paths = ∅ ∧
        Represents hashNode t'.nodes t'.root
          ((applied t.batchUpdates ops).foldl Trie.update o) := by
  induction ops with
  | nil => exact fun t o hr hcache _ => ⟨t, rfl, hcache, hr⟩
  | cons op ops ih =>
    -- A call that commits: the batch, then the rest with nothing pending.
    have hcommit : ∀ (s : MerklePatriciaTrie H) (o : Option Trie),
        Represents hashNode s.nodes s.root o → s.cache.paths = ∅ →
        Trie.SafeUpdates o (s.batchUpdates.insertionSort MerklePatriciaTrie.keyLe
          ++ applied [] ops) →
        ∃ t₁ t', s.commitBatch hashNode = (t₁, .ok ()) ∧ t₁.runOps hashNode ops = (t', .ok ()) ∧
          t'.cache.paths = ∅ ∧ Represents hashNode t'.nodes t'.root
            ((s.batchUpdates.insertionSort MerklePatriciaTrie.keyLe ++ applied [] ops).foldl
              Trie.update o) := by
      intro s o hr hcache hsafe
      obtain ⟨t₁, he₁, hpend, hc₁, hr₁⟩ :=
        commitBatch_refines hinj s hr hcache hsafe.append_left
      have hsafe₁ := hsafe.append_right
      rw [← hpend] at hsafe₁
      obtain ⟨t', he', hc', hr'⟩ := ih t₁ _ hr₁ hc₁ hsafe₁
      rw [hpend] at hr'
      refine ⟨t₁, t', he₁, he', hc', ?_⟩
      rw [List.foldl_append]
      exact hr'
    intro t o hr hcache hsafe
    cases op with
    | insert key value =>
      simp only [applied] at hsafe ⊢
      simp only [MerklePatriciaTrie.runOps, MerklePatriciaTrie.call, MerklePatriciaTrie.insert]
      by_cases hfull : (t.batchUpdates ++ [BatchUpdate.mk key (some value)]).length ≥ 100
      · rw [if_pos hfull] at hsafe ⊢
        rw [if_pos hfull]
        obtain ⟨t₁, t', he₁, he', hc', hr'⟩ := hcommit
          { t with batchUpdates := t.batchUpdates ++ [BatchUpdate.mk key (some value)] } o hr hcache
          hsafe
        rw [he₁]
        exact ⟨t', he', hc', hr'⟩
      · rw [if_neg hfull] at hsafe ⊢
        rw [if_neg hfull]
        exact ih { t with batchUpdates := t.batchUpdates ++ [BatchUpdate.mk key (some value)] } o hr
          hcache hsafe
    | delete key =>
      exact ih { t with batchUpdates := t.batchUpdates ++ [BatchUpdate.mk key none] } o hr hcache hsafe
    | commitBatch =>
      simp only [applied] at hsafe ⊢
      simp only [MerklePatriciaTrie.runOps, MerklePatriciaTrie.call]
      obtain ⟨t₁, t', he₁, he', hc', hr'⟩ := hcommit t o hr hcache hsafe
      rw [he₁]
      exact ⟨t', he', hc', hr'⟩

/-- The same from a new trie. -/
theorem runOps_new_refines (ops : List TrieOp) (hsafe : Trie.SafeUpdates none (applied [] ops)) :
    ∃ t', (MerklePatriciaTrie.new : MerklePatriciaTrie H).runOps hashNode ops = (t', .ok ()) ∧
      t'.cache.paths = ∅ ∧
      Represents hashNode t'.nodes t'.root ((applied [] ops).foldl Trie.update none) :=
  runOps_refines hinj ops MerklePatriciaTrie.new none (represents_none _) rfl hsafe

end Refinement

/-! ## A collision-free hash

The hash of a node is the node itself, so that distinct nodes have distinct
hashes. It stands in for `hash_node` where a concrete hash is needed. -/

/-- A digest that remembers what was hashed. -/
inductive FreeHash where
  | mk (node : Node FreeHash)

namespace FreeHash

theorem mk_injective : Function.Injective FreeHash.mk := fun _ _ h => FreeHash.mk.inj h

mutual
/-- Equality of digests, by comparing what was hashed. -/
def beq : FreeHash → FreeHash → Bool
  | .mk n, .mk m => beqNode n m
termination_by structural x => x

/-- `beq` on nodes. -/
def beqNode : Node FreeHash → Node FreeHash → Bool
  | .empty, .empty => true
  | .leaf p v, .leaf q w => p == q && v == w
  | .extension p c, .extension q d => p == q && beq c d
  | .branch cs v, .branch ds w =>
    (List.finRange 16).all (fun i => beqOpt (cs i) (ds i)) && v == w
  | _, _ => false
termination_by structural x => x

/-- `beq` on child slots. -/
def beqOpt : Option FreeHash → Option FreeHash → Bool
  | none, none => true
  | some a, some b => beq a b
  | _, _ => false
termination_by structural x => x
end

theorem beq_iff (a : FreeHash) : ∀ b, beq a b = true ↔ a = b := by
  refine @FreeHash.rec (fun a => ∀ b, beq a b = true ↔ a = b)
    (fun n => ∀ m, beqNode n m = true ↔ n = m)
    (fun o => ∀ o', beqOpt o o' = true ↔ o = o') ?_ ?_ ?_ ?_ ?_ ?_ ?_ a
  · rintro n ih ⟨m⟩
    simp [beq, ih]
  · intro m
    cases m <;> simp [beqNode]
  · intro p v m
    cases m <;> simp [beqNode]
  · intro p c ih m
    cases m <;> simp [beqNode, ih]
  · intro cs v ih m
    cases m <;> simp [beqNode, ih, funext_iff]
  · intro o
    cases o <;> simp [beqOpt]
  · intro a ih o
    cases o <;> simp [beqOpt, ih]

instance : DecidableEq FreeHash := fun a b => decidable_of_iff _ (beq_iff a b)

end FreeHash

end InterBit.Storage
