import InterBit.Storage.TrieUpdates

/-!
# The node map refines the tree

`Stored nodes t`: the map holds every node of `t` under its hash. This file
shows that the recursions of `MerklePatriciaTrie` over such a map compute the
tree operations of `TrieTree`: `getRecursive_refines` for lookups, with no
condition, and `insertRecursive_refines` and `deleteRecursive_refines` for
updates. They also give `walkFuel` as enough fuel (`Trie.walkNeed_le`).

Updates carry the two conditions of `TrieUpdates` under which nothing that is
removed is still needed.

The proofs carry `Keeps`, a frame condition: whatever is stored before an
update and is not on its removal list is stored afterwards.

For an update that changes nothing the frame is not enough: it takes a node out and files it again,
and in between the store is not closed. `insertRecursive_idle` and `deleteRecursive_idle` say that
it ends with the same nodes, without any condition on sharing.
-/

namespace InterBit.Storage

open InterBit.Lib
open NibblePath (fromNibbles)

/-! ## Stored tries -/

section Stored

variable {H : Type} [DecidableEq H] {hashNode : Node H → H}

/-- The map holds the root node of `t` under its hash. -/
def Has (hashNode : Node H → H) (nodes : Nodes H) (t : Trie) : Prop :=
  nodes (t.digest hashNode) = some (t.node hashNode)

/-- The map holds every node of `t` under its hash. -/
def Stored (hashNode : Node H → H) (nodes : Nodes H) (t : Trie) : Prop :=
  ∀ s, Trie.Sub s t → Has hashNode nodes s

/-- Every trie node held before, and not in `removed`, is held afterwards. -/
def Keeps (hashNode : Node H → H) (nodes nodes' : Nodes H) (removed : List Trie) : Prop :=
  ∀ s, s ∉ removed → Has hashNode nodes s → Has hashNode nodes' s

variable {nodes : Nodes H}

omit [DecidableEq H] in
theorem Stored.root {t : Trie} (h : Stored hashNode nodes t) : Has hashNode nodes t := h t .refl

omit [DecidableEq H] in
theorem Stored.sub {s t : Trie} (h : Stored hashNode nodes t) (hs : Trie.Sub s t) :
    Stored hashNode nodes s :=
  fun r hr => h r (hr.trans hs)

omit [DecidableEq H] in
theorem stored_leaf {p : NibblePath} {v : Value} (h : Has hashNode nodes (.leaf p v)) :
    Stored hashNode nodes (.leaf p v) := by
  intro s hs
  rw [Trie.sub_leaf_iff.mp hs]
  exact h

omit [DecidableEq H] in
theorem stored_extension {p : NibblePath} {c : Trie} (h : Has hashNode nodes (.extension p c))
    (hc : Stored hashNode nodes c) :
    Stored hashNode nodes (.extension p c) := by
  intro s hs
  rcases Trie.sub_extension_iff.mp hs with rfl | hs
  · exact h
  · exact hc s hs

omit [DecidableEq H] in
theorem stored_branch {cs : Fin 16 → Option Trie} {v : Option Value}
    (h : Has hashNode nodes (.branch cs v)) (hcs : ∀ i c, cs i = some c → Stored hashNode nodes c) :
    Stored hashNode nodes (.branch cs v) := by
  intro s hs
  rcases Trie.sub_branch_iff.mp hs with rfl | ⟨i, c, hc, hs⟩
  · exact h
  · exact hcs i c hc s hs

omit [DecidableEq H] in
theorem Stored.keep {nodes nodes' : Nodes H} {t : Trie} {removed : List Trie}
    (h : Stored hashNode nodes t) (hk : Keeps hashNode nodes nodes' removed)
    (hr : ∀ r ∈ removed, ¬ Trie.Sub r t) : Stored hashNode nodes' t :=
  fun s hs => hk s (fun hm => hr s hm hs) (h s hs)

omit [DecidableEq H] in
theorem Stored.keep_all {nodes nodes' : Nodes H} {t : Trie}
    (h : Stored hashNode nodes t) (hk : Keeps hashNode nodes nodes' []) :
    Stored hashNode nodes' t :=
  h.keep hk (fun _ hr => absurd hr List.not_mem_nil)

omit [DecidableEq H] in
theorem keeps_refl (nodes : Nodes H) : Keeps hashNode nodes nodes [] := fun _ _ h => h

omit [DecidableEq H] in
theorem Keeps.trans {a b c : Nodes H} {r s : List Trie} (hab : Keeps hashNode a b r)
    (hbc : Keeps hashNode b c s) : Keeps hashNode a c (r ++ s) := by
  intro x hx hax
  rw [List.mem_append, not_or] at hx
  exact hbc x hx.2 (hab x hx.1 hax)

/-- Filing a node of a trie. -/
theorem createNode_node (nodes : Nodes H) (t : Trie) :
    createNode hashNode nodes (t.node hashNode)
      = (nodes.insert (t.digest hashNode) (t.node hashNode), t.digest hashNode) := by
  rw [createNode, Trie.digest_eq]

theorem has_insert (nodes : Nodes H) (t : Trie) :
    Has hashNode (nodes.insert (t.digest hashNode) (t.node hashNode)) t :=
  Store.insert_self _ _ _

section Injective

variable (hinj : Function.Injective hashNode)
include hinj

/-- To put a node in removes nothing. -/
theorem keeps_insert (nodes : Nodes H) (t : Trie) :
    Keeps hashNode nodes (nodes.insert (t.digest hashNode) (t.node hashNode)) [] := by
  intro s _ hs
  by_cases hd : s.digest hashNode = t.digest hashNode
  · rw [Trie.digest_injective hashNode hinj hd]
    exact has_insert nodes t
  · unfold Has
    rw [Store.insert_ne _ hd]
    exact hs

theorem keeps_remove (nodes : Nodes H) (t : Trie) :
    Keeps hashNode nodes (nodes.remove (t.digest hashNode)) [t] := by
  intro s hst hs
  have hd : s.digest hashNode ≠ t.digest hashNode := fun hd =>
    hst (List.mem_singleton.mpr (Trie.digest_injective hashNode hinj hd))
  unfold Has
  rw [Store.remove_ne hd]
  exact hs

/-- A branch can be removed without its children. -/
theorem Stored.children_remove {nodes : Nodes H} {cs : Fin 16 → Option Trie} {v : Option Value}
    (h : Stored hashNode nodes (.branch cs v)) (i : Fin 16) (c : Trie) (hc : cs i = some c) :
    Stored hashNode (nodes.remove (Trie.digest hashNode (.branch cs v))) c := by
  refine (h.sub (.branch hc .refl)).keep (keeps_remove hinj nodes (.branch cs v)) (fun r hm => ?_)
  rw [List.mem_singleton.mp hm]
  exact Trie.not_sub_of_size_lt (Trie.size_child_lt hc)

/-- Removing a node and then filing another keeps the rest. -/
theorem keeps_replace (nodes : Nodes H) (t t' : Trie) :
    Keeps hashNode nodes
      ((nodes.remove (t.digest hashNode)).insert (t'.digest hashNode) (t'.node hashNode)) [t] := by
  have h := (keeps_remove hinj nodes t).trans (keeps_insert hinj _ t')
  rwa [List.append_nil] at h

/-! ## Lookup -/

omit hinj [DecidableEq H] in
/-- `get_recursive` on a stored trie: the tree lookup, past stored nodes only. -/
theorem getRecursive_refines (nodes : Nodes H) (t : Trie) : ∀ (key : List Nibble) (fuel : Nat),
    t.Shape → Stored hashNode nodes t → t.walkNeed key ≤ fuel →
      (getRecursive nodes fuel (t.digest hashNode) key).1 = t.lookup key ∧
      ∀ x ∈ (getRecursive nodes fuel (t.digest hashNode) key).2, nodes x ≠ none := by
  have hone : ∀ {x : H} {n : Node H}, nodes x = some n → ∀ y ∈ [x], nodes y ≠ none := by
    intro x n hx y hy
    rw [List.mem_singleton.mp hy, hx]
    exact Option.some_ne_none n
  induction t with
  | leaf p w =>
    intro key fuel _ hs hf
    obtain ⟨fuel, rfl⟩ := Trie.walkNeed_pos hf
    have hroot : nodes (Trie.digest hashNode (.leaf p w)) = some (.leaf p w) := hs.root
    simp only [getRecursive, hroot, Trie.lookup]
    exact ⟨trivial, hone hroot⟩
  | extension p c ih =>
    intro key fuel hsh hs hf
    obtain ⟨hb, hshc⟩ := hsh.ext_child
    obtain ⟨fuel, rfl⟩ := Trie.walkNeed_pos hf
    have hroot : nodes (Trie.digest hashNode (.extension p c))
        = some (.extension p (c.digest hashNode)) := hs.root
    simp only [getRecursive, hroot, Trie.lookup]
    by_cases hpre : p.toNibbles <+: key
    · rw [if_pos hpre, if_pos hpre]
      have hfc := Trie.walkNeed_ext_child hb hf
      obtain ⟨hv, hp⟩ := ih _ fuel hshc (hs.sub (.extension .refl)) hfc
      refine ⟨hv, fun x hx => ?_⟩
      -- the path is this node and the one below it
      rcases List.mem_cons.mp hx with rfl | hx
      · exact hone hroot _ (List.mem_singleton.mpr rfl)
      · exact hp x hx
    · rw [if_neg hpre, if_neg hpre]
      exact ⟨rfl, hone hroot⟩
  | branch cs w ih =>
    intro key fuel hsh hs hf
    obtain ⟨fuel, rfl⟩ := Trie.walkNeed_pos hf
    have hroot : nodes (Trie.digest hashNode (.branch cs w))
        = some (.branch (fun i => Trie.digestOpt hashNode (cs i)) w) := hs.root
    cases key with
    | nil =>
      simp only [getRecursive, hroot, Trie.lookup]
      exact ⟨trivial, hone hroot⟩
    | cons i rest =>
      simp only [getRecursive, hroot, Trie.lookup]
      cases hi : cs i with
      | none =>
        simp only [Trie.digestOpt_none, Trie.lookupOpt_none]
        exact ⟨trivial, hone hroot⟩
      | some c =>
        simp only [Trie.digestOpt_some, Trie.lookupOpt_some]
        have hfc := Trie.walkNeed_child (c := c) hf
        obtain ⟨hv, hp⟩ := ih i c hi rest fuel (hsh.child hi) (hs.sub (.branch hi .refl)) hfc
        refine ⟨hv, fun x hx => ?_⟩
        rcases List.mem_cons.mp hx with rfl | hx
        · exact hone hroot _ (List.mem_singleton.mpr rfl)
        · exact hp x hx

/-! ## The splits -/

/-- `place_leaf` stores the leaf at its place, or the value in the branch. -/
theorem placeLeaf_refines (nodes : Nodes H) (cs : Fin 16 → Option Trie) (key : List Nibble)
    (n : Nat) (v : Value) (hcs : ∀ i c, cs i = some c → Stored hashNode nodes c) :
    ∃ nodes', placeLeaf hashNode nodes (fun i => Trie.digestOpt hashNode (cs i)) key n v
        = (nodes', fun i => Trie.digestOpt hashNode (Trie.placeLeaf cs key n v i)) ∧
      (∀ i c, Trie.placeLeaf cs key n v i = some c → Stored hashNode nodes' c) ∧
      Keeps hashNode nodes nodes' [] := by
  cases hd : key.drop n with
  | nil =>
    refine ⟨nodes, ?_, ?_, keeps_refl nodes⟩
    · simp only [placeLeaf, Trie.placeLeaf, hd]
    · simpa only [Trie.placeLeaf, hd] using hcs
  | cons i rest =>
    have hkeep := keeps_insert hinj nodes (.leaf (fromNibbles rest) v)
    refine ⟨_, ?_, ?_, hkeep⟩
    · simp only [placeLeaf, Trie.placeLeaf, hd, Trie.digestOpt_update]
      rw [show (Node.leaf (fromNibbles rest) v : Node H)
        = Trie.node hashNode (.leaf (fromNibbles rest) v) from rfl, createNode_node]
      rfl
    · intro j c hc
      simp only [Trie.placeLeaf, hd] at hc
      rcases Trie.update_eq_some hc with ⟨-, he⟩ | ⟨-, hc⟩
      · rw [← Option.some.inj he]
        exact stored_leaf (has_insert nodes _)
      · exact (hcs j c hc).keep_all hkeep

theorem placeExtension_refines (nodes : Nodes H) (cs : Fin 16 → Option Trie)
    (extNibbles : List Nibble) (n : Nat) (child : Trie)
    (hcs : ∀ i c, cs i = some c → Stored hashNode nodes c) (hc : Stored hashNode nodes child) :
    ∃ nodes', placeExtension hashNode nodes (fun i => Trie.digestOpt hashNode (cs i)) extNibbles n
          (child.digest hashNode)
        = (nodes', fun i => Trie.digestOpt hashNode
            (Trie.placeExtension cs extNibbles n child i)) ∧
      (∀ i c, Trie.placeExtension cs extNibbles n child i = some c → Stored hashNode nodes' c) ∧
      Keeps hashNode nodes nodes' [] := by
  -- By what is left of the path beyond `n`: nothing, one nibble, or more than one.
  match hd : extNibbles.drop n with
  | [] =>
    refine ⟨nodes, ?_, ?_, keeps_refl nodes⟩
    · simp only [placeExtension, Trie.placeExtension, hd]
    · simpa only [Trie.placeExtension, hd] using hcs
  | [i] =>
    refine ⟨nodes, ?_, ?_, keeps_refl nodes⟩
    · simp only [placeExtension, Trie.placeExtension, hd, Trie.digestOpt_update,
        Trie.digestOpt_some]
    · intro j c hj
      simp only [Trie.placeExtension, hd] at hj
      rcases Trie.update_eq_some hj with ⟨-, he⟩ | ⟨-, hj⟩
      · exact Option.some.inj he ▸ hc
      · exact hcs j c hj
  | i :: a :: rest =>
    -- The rest of the path becomes an extension of its own.
    have hk := keeps_insert hinj nodes (.extension (fromNibbles (a :: rest)) child)
    have hcreate : createNode hashNode nodes
        (.extension (fromNibbles (a :: rest)) (child.digest hashNode)) = _ :=
      createNode_node nodes (.extension (fromNibbles (a :: rest)) child)
    refine ⟨_, ?_, ?_, hk⟩
    · simp only [placeExtension, Trie.placeExtension, hd, Trie.digestOpt_update,
        Trie.digestOpt_some, hcreate]
    · intro j c hj
      simp only [Trie.placeExtension, hd] at hj
      rcases Trie.update_eq_some hj with ⟨-, he⟩ | ⟨-, hj⟩
      · rw [← Option.some.inj he]
        exact stored_extension (has_insert _ _) (hc.keep_all hk)
      · exact (hcs j c hj).keep_all hk

theorem createBranch_refines (nodes : Nodes H) (cs : Fin 16 → Option Trie) (v : Option Value)
    (common : List Nibble) (hcs : ∀ i c, cs i = some c → Stored hashNode nodes c) :
    ∃ nodes', createBranch hashNode nodes (fun i => Trie.digestOpt hashNode (cs i)) v common
        = (nodes', (Trie.createBranch cs v common).digest hashNode) ∧
      Stored hashNode nodes' (Trie.createBranch cs v common) ∧
      Keeps hashNode nodes nodes' [] := by
  have hk₁ := keeps_insert hinj nodes (.branch cs v)
  have hs₁ := stored_branch (has_insert nodes (.branch cs v))
    (fun i c hc => (hcs i c hc).keep_all hk₁)
  have hbranch : createNode hashNode nodes (.branch (fun i => Trie.digestOpt hashNode (cs i)) v)
      = (nodes.insert (Trie.digest hashNode (.branch cs v)) (Trie.node hashNode (.branch cs v)),
          Trie.digest hashNode (.branch cs v)) := createNode_node nodes (.branch cs v)
  unfold createBranch Trie.createBranch
  rw [hbranch]
  dsimp only
  by_cases hc : common.length > 0
  · rw [if_pos hc, if_pos hc]
    have hk₂ := keeps_insert hinj
      (nodes.insert (Trie.digest hashNode (.branch cs v)) (Trie.node hashNode (.branch cs v)))
      (.extension (fromNibbles common) (.branch cs v))
    refine ⟨_, createNode_node _ (.extension (fromNibbles common) (.branch cs v)), ?_,
      hk₁.trans hk₂⟩
    exact stored_extension (has_insert _ _) (hs₁.keep_all hk₂)
  · rw [if_neg hc, if_neg hc]
    exact ⟨_, rfl, hs₁, hk₁⟩

/-- `split_and_insert` stores the tree that the leaf is split into. -/
theorem splitAndInsert_refines (nodes : Nodes H) (key : List Nibble) (value : Value)
    (existingKey : List Nibble) (existingValue : Value) (n : Nat) :
    ∃ nodes', splitAndInsert hashNode nodes key value existingKey (some existingValue) n
        = (nodes', (Trie.splitLeaf key value existingKey existingValue n).digest hashNode) ∧
      Stored hashNode nodes' (Trie.splitLeaf key value existingKey existingValue n) ∧
      Keeps hashNode nodes nodes' [] := by
  obtain ⟨n₁, he₁, hs₁, hk₁⟩ :=
    placeLeaf_refines hinj nodes (fun _ => none) key n value (fun i c hc => nomatch hc)
  obtain ⟨n₂, he₂, hs₂, hk₂⟩ := placeLeaf_refines hinj n₁ _ existingKey n existingValue hs₁
  obtain ⟨n₃, he₃, hs₃, hk₃⟩ := createBranch_refines hinj n₂ _
    (if key.length = n then some value else some existingValue) (key.take n) hs₂
  refine ⟨n₃, ?_, hs₃, (hk₁.trans hk₂).trans hk₃⟩
  unfold splitAndInsert
  rw [show (fun _ : Fin 16 => (none : Option H))
    = fun i => Trie.digestOpt hashNode ((fun _ => none : Fin 16 → Option Trie) i) from rfl, he₁]
  dsimp only
  rw [he₂]
  exact he₃

/-- `split_extension` stores the tree that the extension is split into. -/
theorem splitExtension_refines (nodes : Nodes H) (key : List Nibble) (value : Value)
    (extNibbles : List Nibble) (child : Trie) (n : Nat) (hc : Stored hashNode nodes child) :
    ∃ nodes', splitExtension hashNode nodes key value extNibbles (child.digest hashNode) n
        = (nodes', (Trie.splitExt key value extNibbles child n).digest hashNode) ∧
      Stored hashNode nodes' (Trie.splitExt key value extNibbles child n) ∧
      Keeps hashNode nodes nodes' [] := by
  obtain ⟨n₁, he₁, hs₁, hk₁⟩ :=
    placeLeaf_refines hinj nodes (fun _ => none) key n value (fun i c hc => nomatch hc)
  obtain ⟨n₂, he₂, hs₂, hk₂⟩ :=
    placeExtension_refines hinj n₁ _ extNibbles n child hs₁ (hc.keep_all hk₁)
  obtain ⟨n₃, he₃, hs₃, hk₃⟩ := createBranch_refines hinj n₂ _
    (if key.length = n then some value else none) (extNibbles.take n) hs₂
  refine ⟨n₃, ?_, hs₃, (hk₁.trans hk₂).trans hk₃⟩
  unfold splitExtension
  rw [show (fun _ : Fin 16 => (none : Option H))
    = fun i => Trie.digestOpt hashNode ((fun _ => none : Fin 16 → Option Trie) i) from rfl, he₁]
  dsimp only
  rw [he₂]
  exact he₃

/-! ## Insertion -/

/-- `insert_recursive` on a stored trie: the tree insertion, and the frame. -/
theorem insertRecursive_refines (t : Trie) : ∀ (key : List Nibble) (value : Value) (fuel : Nat)
    (nodes : Nodes H), t.Shape → Stored hashNode nodes t → t.walkNeed key ≤ fuel →
      Trie.Unshared Trie.removedByInsert t key → t.NotRebuilt key value →
      ∃ nodes', insertRecursive hashNode fuel nodes (some (t.digest hashNode)) key value
          = (nodes', .ok (some ((t.insert key value).digest hashNode))) ∧
        Stored hashNode nodes' (t.insert key value) ∧
        Keeps hashNode nodes nodes' (t.removedByInsert key) := by
  induction t with
  | leaf p w =>
    intro key value fuel nodes _ hs hf _ _
    obtain ⟨fuel, rfl⟩ := Trie.walkNeed_pos hf
    have hroot : nodes (Trie.digest hashNode (.leaf p w)) = some (.leaf p w) := hs.root
    simp only [insertRecursive, hroot, Trie.insert, Trie.removedByInsert]
    split
    next =>
      exact ⟨_, rfl,
        stored_leaf (has_insert _ _), keeps_replace hinj nodes (.leaf p w) (.leaf p value)⟩
    next =>
      obtain ⟨n', he, hs', hk⟩ := splitAndInsert_refines hinj nodes key value p.toNibbles w
        (commonPrefixLen key p.toNibbles)
      rw [he]
      exact ⟨n', rfl, hs', hk⟩
  | extension p c ih =>
    intro key value fuel nodes hsh hs hf hu hr
    obtain ⟨hb, hshc⟩ := hsh.ext_child
    have hsc : Stored hashNode nodes c := hs.sub (.extension .refl)
    obtain ⟨fuel, rfl⟩ := Trie.walkNeed_pos hf
    have hroot : nodes (Trie.digest hashNode (.extension p c))
        = some (.extension p (c.digest hashNode)) := hs.root
    simp only [insertRecursive, hroot, Trie.insert, Trie.removedByInsert]
    by_cases hcl : commonPrefixLen key p.toNibbles = p.toNibbles.length
    · rw [if_pos hcl, if_pos hcl, if_pos hcl, hcl]
      obtain ⟨hrc, hrt⟩ := hr hcl
      have hfc := Trie.walkNeed_ext_child hb hf
      obtain ⟨n₁, he, hs₁, hk₁⟩ := ih _ value fuel nodes hshc hsc hfc
        (hu ((commonPrefixLen_eq_length_iff key _).mp hcl)) hrc
      rw [he]
      have hk₂ := keeps_replace hinj n₁ (.extension p c)
        (.extension p (c.insert (key.drop p.toNibbles.length) value))
      refine ⟨_, rfl,
        stored_extension (has_insert _ _) (hs₁.keep hk₂ ?_), hk₁.trans hk₂⟩
      intro r hm
      rw [List.mem_singleton.mp hm]
      exact hrt
    · rw [if_neg hcl, if_neg hcl, if_neg hcl]
      obtain ⟨n', he, hs', hk⟩ := splitExtension_refines hinj nodes key value p.toNibbles c
        (commonPrefixLen key p.toNibbles) hsc
      rw [he]
      exact ⟨n', rfl, hs', hk⟩
  | branch cs w ih =>
    intro key value fuel nodes hsh hs hf hu hr
    have hsc : ∀ i c, cs i = some c → Stored hashNode nodes c := fun i c hc => hs.sub (.branch hc .refl)
    obtain ⟨fuel, rfl⟩ := Trie.walkNeed_pos hf
    have hroot : nodes (Trie.digest hashNode (.branch cs w))
        = some (.branch (fun i => Trie.digestOpt hashNode (cs i)) w) := hs.root
    cases key with
    | nil =>
      simp only [insertRecursive, hroot, Trie.insert, Trie.removedByInsert]
      have hk := keeps_replace hinj nodes (.branch cs w) (.branch cs (some value))
      refine ⟨_, rfl,
        stored_branch (has_insert _ _) (fun i c hc => (hsc i c hc).keep hk ?_), hk⟩
      intro r hm
      rw [List.mem_singleton.mp hm]
      exact Trie.not_sub_of_size_lt (Trie.size_child_lt hc)
    | cons i rest =>
      simp only [insertRecursive, hroot, Trie.insert, Trie.removedByInsert]
      -- The recursive call, on an empty slot or on a child.
      have hrec : ∃ n₁, insertRecursive hashNode fuel nodes (Trie.digestOpt hashNode (cs i)) rest value
            = (n₁, .ok (some ((Trie.insertOpt (cs i) rest value).digest hashNode))) ∧
          Stored hashNode n₁ (Trie.insertOpt (cs i) rest value) ∧
          Keeps hashNode nodes n₁ (Trie.removedByInsertOpt (cs i) rest) ∧
          ¬ Trie.Sub (.branch cs w) (Trie.insertOpt (cs i) rest value) := by
        cases hi : cs i with
        | none =>
          obtain ⟨fuel, rfl⟩ := Trie.walkNeed_pos (Trie.walkNeed_child (c := .branch cs w) hf)
          refine ⟨_, rfl,
            stored_leaf (has_insert _ _), keeps_insert hinj nodes (.leaf (fromNibbles rest) value), ?_⟩
          intro hsub
          cases Trie.sub_leaf_iff.mp hsub
        | some c =>
          have hfc := Trie.walkNeed_child (c := c) hf
          have huc := hu.1
          have hrc := hr.1
          rw [hi] at huc hrc
          obtain ⟨n₁, he, hs₁, hk₁⟩ := ih i c hi rest value fuel nodes (hsh.child hi) (hsc i c hi)
            hfc huc hrc
          exact ⟨n₁, he, hs₁, hk₁, hr.2 c hi⟩
      obtain ⟨n₁, he, hs₁, hk₁, hnot⟩ := hrec
      rw [he]
      have hk₂ := keeps_replace hinj n₁ (.branch cs w)
        (.branch (Function.update cs i (some (Trie.insertOpt (cs i) rest value))) w)
      have hupd : (Node.branch (Function.update (fun j => Trie.digestOpt hashNode (cs j)) i
            (some ((Trie.insertOpt (cs i) rest value).digest hashNode))) w)
          = Trie.node hashNode
            (.branch (Function.update cs i (some (Trie.insertOpt (cs i) rest value))) w) := by
        simp only [Trie.node, Trie.digestOpt_update, Trie.digestOpt_some]
      dsimp only
      rw [hupd, createNode_node]
      refine ⟨_, rfl, stored_branch (has_insert _ _) (fun j c hc => ?_), hk₁.trans hk₂⟩
      rcases Trie.update_eq_some hc with ⟨-, hc⟩ | ⟨hj, hc⟩
      · refine (Option.some.inj hc ▸ hs₁ : Stored hashNode n₁ c).keep hk₂ (fun r hm => ?_)
        rw [List.mem_singleton.mp hm]
        exact Option.some.inj hc ▸ hnot
      · have hkeep₁ : Stored hashNode n₁ c := (hsc j c hc).keep hk₁ (fun r hm => by
          cases hi : cs i with
          | none =>
            rw [hi] at hm
            exact absurd hm List.not_mem_nil
          | some d =>
            rw [hi] at hm
            exact hu.2 d hi r hm j c hj hc)
        refine hkeep₁.keep hk₂ (fun r hm => ?_)
        rw [List.mem_singleton.mp hm]
        exact Trie.not_sub_of_size_lt (Trie.size_child_lt hc)

/-! ## Deletion -/

/-- `try_merge_extension` stores the merged extension. -/
theorem tryMergeExtension_refines (nodes : Nodes H) (p : NibblePath) (c : Trie)
    (hs : Stored hashNode nodes c) :
    ∃ nodes', tryMergeExtension hashNode nodes p (c.digest hashNode)
        = (nodes', some ((c.mergeExtension p).digest hashNode)) ∧
      Stored hashNode nodes' (c.mergeExtension p) ∧
      Keeps hashNode nodes nodes' c.absorbed := by
  have hroot := hs.root
  unfold Has at hroot
  unfold tryMergeExtension
  cases c with
  | leaf q v =>
    simp only [hroot, Trie.node]
    exact ⟨_, rfl,
      stored_leaf (has_insert _ _),
      keeps_replace hinj nodes (.leaf q v) (.leaf (p.concat q) v)⟩
  | extension q d =>
    simp only [hroot, Trie.node]
    have hk := keeps_replace hinj nodes (.extension q d) (.extension (p.concat q) d)
    refine ⟨_, rfl,
      stored_extension (has_insert _ _) ((hs.sub (.extension .refl)).keep hk ?_), hk⟩
    intro r hm
    rw [List.mem_singleton.mp hm]
    exact Trie.not_sub_of_size_lt (by simp only [Trie.size]; omega)
  | branch cs v =>
    simp only [hroot, Trie.node]
    have hk := keeps_insert hinj nodes (.extension p (.branch cs v))
    exact ⟨_, rfl,
      stored_extension (has_insert _ _) (hs.keep_all hk), hk⟩

/-- `simplify_branch` stores what is left of the branch. -/
theorem simplifyBranch_refines (nodes : Nodes H) (cs : Fin 16 → Option Trie) (v : Option Value)
    (hcs : ∀ i c, cs i = some c → Stored hashNode nodes c) :
    ∃ nodes', simplifyBranch hashNode nodes (fun i => Trie.digestOpt hashNode (cs i)) v
        = (nodes', (Trie.simplify cs v).map (Trie.digest hashNode)) ∧
      (∀ t, Trie.simplify cs v = some t → Stored hashNode nodes' t) ∧
      Keeps hashNode nodes nodes' (Trie.absorbedChild cs v) := by
  have hmap := Trie.nonEmptyChildren_digestOpt hashNode cs
  -- A branch with these children, whenever it stays one.
  have hbranch : ∃ nodes', createNode hashNode nodes
        (.branch (fun i => Trie.digestOpt hashNode (cs i)) v)
          = (nodes', (Trie.branch cs v).digest hashNode) ∧
      Stored hashNode nodes' (.branch cs v) ∧ Keeps hashNode nodes nodes' [] := by
    have hk := keeps_insert hinj nodes (.branch cs v)
    exact ⟨_, createNode_node nodes (.branch cs v),
      stored_branch (has_insert _ _) (fun i c hc => (hcs i c hc).keep_all hk), hk⟩
  obtain ⟨nb, heb, hsb, hkb⟩ := hbranch
  match hne : nonEmptyChildren cs, v with
  | [], none =>
    simp only [simplifyBranch, Trie.simplify, Trie.absorbedChild, hmap, hne, List.map_nil]
    exact ⟨nodes, rfl, fun t ht => (by cases ht), keeps_refl nodes⟩
  | [], some w =>
    simp only [simplifyBranch, Trie.simplify, Trie.absorbedChild, hmap, hne, List.map_nil]
    refine ⟨_, rfl,
      ?_, keeps_insert hinj nodes (.leaf (fromNibbles []) w)⟩
    intro t ht
    exact Option.some.inj ht ▸ stored_leaf (has_insert _ _)
  | [(i, c)], none =>
    have hc := Trie.nonEmptyChildren_singleton hne
    have hs := hcs i c hc
    have hroot := hs.root
    unfold Has at hroot
    simp only [simplifyBranch, Trie.simplify, Trie.absorbedChild, hmap, hne, List.map_cons,
      List.map_nil, hroot]
    cases c with
    | leaf q w =>
      simp only [Trie.node, Trie.mergeChild, Trie.absorbed]
      refine ⟨_, rfl, ?_,
        keeps_replace hinj nodes (.leaf q w) (.leaf (fromNibbles (i :: q.toNibbles)) w)⟩
      intro t ht
      exact Option.some.inj ht ▸ stored_leaf (has_insert _ _)
    | extension q d =>
      simp only [Trie.node, Trie.mergeChild, Trie.absorbed]
      have hk := keeps_replace hinj nodes (.extension q d)
        (.extension (fromNibbles (i :: q.toNibbles)) d)
      refine ⟨_, rfl, ?_, hk⟩
      intro t ht
      rw [← Option.some.inj ht]
      refine stored_extension (has_insert _ _) ((hs.sub (.extension .refl)).keep hk ?_)
      intro r hm
      rw [List.mem_singleton.mp hm]
      exact Trie.not_sub_of_size_lt (by simp only [Trie.size]; omega)
    | branch ds w =>
      simp only [Trie.node, Trie.mergeChild, Trie.absorbed]
      rw [heb]
      exact ⟨nb, rfl, fun t ht => Option.some.inj ht ▸ hsb, hkb⟩
  | [(i, c)], some w =>
    simp only [simplifyBranch, Trie.simplify, Trie.absorbedChild, hmap, hne, List.map_cons,
      List.map_nil]
    rw [heb]
    exact ⟨nb, rfl, fun t ht => Option.some.inj ht ▸ hsb, hkb⟩
  | _ :: _ :: _, v =>
    simp only [simplifyBranch, Trie.simplify, Trie.absorbedChild, hmap, hne, List.map_cons]
    rw [heb]
    exact ⟨nb, rfl, fun t ht => Option.some.inj ht ▸ hsb, hkb⟩

/-- `delete_recursive` on a stored trie: the tree deletion, and the frame. -/
theorem deleteRecursive_refines (t : Trie) : ∀ (key : List Nibble) (fuel : Nat) (nodes : Nodes H),
    t.Shape → Stored hashNode nodes t → t.walkNeed key ≤ fuel →
      Trie.Unshared Trie.removedByDelete t key →
      ∃ nodes', deleteRecursive hashNode fuel nodes (some (t.digest hashNode)) key
          = (nodes', .ok ((t.delete key).map (Trie.digest hashNode))) ∧
        (∀ t', t.delete key = some t' → Stored hashNode nodes' t') ∧
        Keeps hashNode nodes nodes' (t.removedByDelete key) := by
  induction t with
  | leaf p w =>
    intro key fuel nodes _ hs hf _
    obtain ⟨fuel, rfl⟩ := Trie.walkNeed_pos hf
    have hroot : nodes (Trie.digest hashNode (.leaf p w)) = some (.leaf p w) := hs.root
    simp only [deleteRecursive, hroot, Trie.delete, Trie.removedByDelete]
    split
    next => exact ⟨_, rfl, fun t ht => (by cases ht), keeps_remove hinj nodes _⟩
    next => exact ⟨nodes, rfl, fun t ht => Option.some.inj ht ▸ hs, keeps_refl nodes⟩
  | extension p c ih =>
    intro key fuel nodes hsh hs hf hu
    obtain ⟨hb, hshc⟩ := hsh.ext_child
    obtain ⟨fuel, rfl⟩ := Trie.walkNeed_pos hf
    have hroot : nodes (Trie.digest hashNode (.extension p c))
        = some (.extension p (c.digest hashNode)) := hs.root
    simp only [deleteRecursive, hroot, Trie.delete, Trie.removedByDelete]
    by_cases hpre : p.toNibbles <+: key
    · rw [if_pos hpre, if_pos hpre, if_pos hpre]
      -- first the child is deleted from, then the extension is merged with what is left of it
      have hfc := Trie.walkNeed_ext_child hb hf
      obtain ⟨n₁, he, hs₁, hk₁⟩ :=
        ih _ fuel nodes hshc (hs.sub (.extension .refl)) hfc (hu hpre)
      rw [he]
      cases hd : c.delete (key.drop p.toNibbles.length) with
      | none =>
        exact ⟨_, rfl, fun t ht => (by cases ht), hk₁.trans (keeps_remove hinj n₁ (.extension p c))⟩
      | some c' =>
        obtain ⟨n₂, he₂, hs₂, hk₂⟩ := tryMergeExtension_refines hinj n₁ p c' (hs₁ c' hd)
        simp only [Option.map_some]
        rw [he₂]
        exact ⟨n₂, rfl, fun t ht => Option.some.inj ht ▸ hs₂, hk₁.trans hk₂⟩
    · rw [if_neg hpre, if_neg hpre, if_neg hpre]
      exact ⟨nodes, rfl, fun t ht => Option.some.inj ht ▸ hs, keeps_refl nodes⟩
  | branch cs w ih =>
    intro key fuel nodes hsh hs hf hu
    have hsc : ∀ i c, cs i = some c → Stored hashNode nodes c := fun i c hc => hs.sub (.branch hc .refl)
    obtain ⟨fuel, rfl⟩ := Trie.walkNeed_pos hf
    have hroot : nodes (Trie.digest hashNode (.branch cs w))
        = some (.branch (fun i => Trie.digestOpt hashNode (cs i)) w) := hs.root
    cases key with
    | nil =>
      simp only [deleteRecursive, hroot, Trie.delete, Trie.removedByDelete]
      have hk := keeps_remove hinj nodes (.branch cs w)
      obtain ⟨n₂, he₂, hs₂, hk₂⟩ := simplifyBranch_refines hinj
        (nodes.remove (Trie.digest hashNode (.branch cs w))) cs none (hs.children_remove hinj)
      rw [he₂]
      exact ⟨n₂, rfl, hs₂, hk.trans hk₂⟩
    | cons i rest =>
      simp only [deleteRecursive, hroot, Trie.delete, Trie.removedByDelete]
      cases hi : cs i with
      | none =>
        exact ⟨nodes, rfl, fun t ht => Option.some.inj ht ▸ hs, keeps_refl nodes⟩
      | some c =>
        simp only [Trie.digestOpt_some, Option.isSome_some, if_true, Trie.deleteOpt_some,
          Trie.removedByDeleteOpt_some]
        have hfc := Trie.walkNeed_child (c := c) hf
        have huc := hu.1
        rw [hi] at huc
        obtain ⟨n₁, he, hs₁, hk₁⟩ := ih i c hi rest fuel nodes (hsh.child hi) (hsc i c hi) hfc huc
        rw [he]
        -- the old branch goes only after the delete below it
        have hk := keeps_remove hinj n₁ (.branch cs w)
        have hnew : ∀ j d, Function.update cs i (c.delete rest) j = some d →
            Stored hashNode (n₁.remove (Trie.digest hashNode (.branch cs w))) d := by
          intro j d hd
          rcases Trie.update_eq_some hd with ⟨-, hd⟩ | ⟨hj, hd⟩
          · refine (hs₁ d hd).keep hk (fun r hm => ?_)
            rw [List.mem_singleton.mp hm]
            exact Trie.not_sub_of_size_lt
              (Nat.lt_of_le_of_lt (Trie.size_delete_le hd) (Trie.size_child_lt hi))
          · have hkeep₁ := (hsc j d hd).keep hk₁ (fun r hm => hu.2 c hi r hm j d hj hd)
            refine hkeep₁.keep hk (fun r hm => ?_)
            rw [List.mem_singleton.mp hm]
            exact Trie.not_sub_of_size_lt (Trie.size_child_lt hd)
        obtain ⟨n₂, he₂, hs₂, hk₂⟩ := simplifyBranch_refines hinj _ _ w hnew
        have hupd : Function.update (fun j => Trie.digestOpt hashNode (cs j)) i
              ((c.delete rest).map (Trie.digest hashNode))
            = fun j => Trie.digestOpt hashNode (Function.update cs i (c.delete rest) j) := by
          rw [Trie.digestOpt_update]
          congr 1
          cases c.delete rest <;> rfl
        dsimp only
        rw [hupd, he₂]
        exact ⟨n₂, rfl, hs₂, hk₁.trans (hk.trans hk₂)⟩

/-! ## Updates that change nothing

They take the nodes of the key's path out and file them again, so that the map
is the same afterwards, shared nodes or not. -/

omit hinj in
/-- An insert of the value that is already there ends with the same nodes. -/
theorem insertRecursive_idle (t : Trie) : ∀ (key : List Nibble) (value : Value) (fuel : Nat)
    (nodes : Nodes H), t.Shape → Stored hashNode nodes t → t.walkNeed key ≤ fuel →
      t.insert key value = t →
      insertRecursive hashNode fuel nodes (some (t.digest hashNode)) key value
        = (nodes, .ok (some (t.digest hashNode))) := by
  induction t with
  | leaf p w =>
    intro key value fuel nodes _ hs hf hidle
    obtain ⟨fuel, rfl⟩ := Trie.walkNeed_pos hf
    have hroot : nodes (Trie.digest hashNode (.leaf p w)) = some (.leaf p w) := hs.root
    obtain ⟨hlen, rfl⟩ := Trie.insert_leaf_eq hidle
    simp only [insertRecursive, hroot]
    rw [if_pos hlen]
    simp only [createNode]
    -- the leaf is taken out and put back under the same digest
    rw [show hashNode (.leaf p value) = Trie.digest hashNode (.leaf p value) from rfl,
      Store.remove_insert_eq_self hroot]
  | extension p c ih =>
    intro key value fuel nodes hsh hs hf hidle
    obtain ⟨hb, hshc⟩ := hsh.ext_child
    obtain ⟨fuel, rfl⟩ := Trie.walkNeed_pos hf
    have hroot : nodes (Trie.digest hashNode (.extension p c))
        = some (.extension p (c.digest hashNode)) := hs.root
    obtain ⟨hcl, hc⟩ := Trie.insert_extension_eq hidle
    simp only [insertRecursive, hroot]
    rw [if_pos hcl, hcl, ih _ value fuel nodes hshc (hs.sub (.extension .refl))
      (Trie.walkNeed_ext_child hb hf) hc]
    simp only [createNode]
    rw [show hashNode (.extension p (c.digest hashNode))
      = Trie.digest hashNode (.extension p c) from rfl, Store.remove_insert_eq_self hroot]
  | branch cs w ih =>
    intro key value fuel nodes hsh hs hf hidle
    obtain ⟨fuel, rfl⟩ := Trie.walkNeed_pos hf
    have hroot : nodes (Trie.digest hashNode (.branch cs w))
        = some (.branch (fun i => Trie.digestOpt hashNode (cs i)) w) := hs.root
    have hfile : createNode hashNode (nodes.remove (Trie.digest hashNode (.branch cs w)))
          (.branch (fun i => Trie.digestOpt hashNode (cs i)) w)
        = (nodes, Trie.digest hashNode (.branch cs w)) := by
      simp only [createNode]
      rw [show hashNode (.branch (fun i => Trie.digestOpt hashNode (cs i)) w)
        = Trie.digest hashNode (.branch cs w) from rfl, Store.remove_insert_eq_self hroot]
    cases key with
    | nil =>
      injection hidle with _ hw
      subst hw
      simp only [insertRecursive, hroot, hfile]
    | cons i rest =>
      obtain ⟨c, hi, hc⟩ := Trie.insert_branch_eq hidle
      -- the slot gets the digest that it has
      have hself : Function.update (fun j => Trie.digestOpt hashNode (cs j)) i
          (some (c.digest hashNode)) = fun j => Trie.digestOpt hashNode (cs j) :=
        Function.update_eq_self_iff.mpr (by rw [hi]; rfl)
      have hrec := ih i c hi rest value fuel nodes (hsh.child hi) (hs.sub (.branch hi .refl))
        (Trie.walkNeed_child hf) hc
      simp only [insertRecursive, hroot]
      rw [hi, Trie.digestOpt_some, hrec]
      dsimp only
      rw [hself, hfile]

omit hinj in
/-- Where `simplify_branch` changes nothing, it files the branch. -/
theorem simplifyBranch_idle (nodes : Nodes H) (cs : Fin 16 → Option Trie) (v : Option Value)
    (hcs : ∀ i c, cs i = some c → Stored hashNode nodes c)
    (hidle : Trie.simplify cs v = some (.branch cs v)) :
    simplifyBranch hashNode nodes (fun i => Trie.digestOpt hashNode (cs i)) v
      = (nodes.insert (Trie.digest hashNode (.branch cs v)) (Trie.node hashNode (.branch cs v)),
          some (Trie.digest hashNode (.branch cs v))) := by
  have hmap := Trie.nonEmptyChildren_digestOpt hashNode cs
  match hne : nonEmptyChildren cs, v with
  | [], none => simp [Trie.simplify, hne] at hidle
  | [], some w => simp [Trie.simplify, hne] at hidle
  | [(i, c)], none =>
    have hroot := (hcs i c (Trie.nonEmptyChildren_singleton hne)).root
    unfold Has at hroot
    simp only [Trie.simplify, hne, Option.some.injEq] at hidle
    simp only [simplifyBranch, hmap, hne, List.map_cons, List.map_nil, hroot]
    cases c with
    | leaf q w => cases hidle
    | extension q d => cases hidle
    | branch ds w => rfl
  | [(i, c)], some w =>
    simp only [simplifyBranch, hmap, hne, List.map_cons, List.map_nil]
    rfl
  | _ :: _ :: _, v =>
    simp only [simplifyBranch, hmap, hne, List.map_cons]
    rfl

/-- A delete that finds nothing ends with the same nodes. -/
theorem deleteRecursive_idle (t : Trie) : ∀ (key : List Nibble) (fuel : Nat) (nodes : Nodes H),
    t.Shape → Stored hashNode nodes t → t.walkNeed key ≤ fuel → t.delete key = some t →
      deleteRecursive hashNode fuel nodes (some (t.digest hashNode)) key
        = (nodes, .ok (some (t.digest hashNode))) := by
  induction t with
  | leaf p w =>
    intro key fuel nodes _ hs hf hidle
    obtain ⟨fuel, rfl⟩ := Trie.walkNeed_pos hf
    have hroot : nodes (Trie.digest hashNode (.leaf p w)) = some (.leaf p w) := hs.root
    simp only [Trie.delete] at hidle
    simp only [deleteRecursive, hroot]
    split at hidle
    next => cases hidle
    next hne => rw [if_neg hne]
  | extension p c ih =>
    intro key fuel nodes hsh hs hf hidle
    obtain ⟨hb, hshc⟩ := hsh.ext_child
    obtain ⟨fuel, rfl⟩ := Trie.walkNeed_pos hf
    have hroot : nodes (Trie.digest hashNode (.extension p c))
        = some (.extension p (c.digest hashNode)) := hs.root
    simp only [Trie.delete] at hidle
    simp only [deleteRecursive, hroot]
    split at hidle
    next hpre =>
      obtain ⟨c', hc', hm⟩ := Option.map_eq_some_iff.mp hidle
      have he := Trie.mergeExtension_eq hb (Trie.size_delete_le hc') hm
      subst he
      have hsc : Stored hashNode nodes c' := hs.sub (.extension .refl)
      rw [if_pos hpre, ih _ fuel nodes hshc hsc (Trie.walkNeed_ext_child hb hf) hc']
      have hchild : nodes (c'.digest hashNode) = some (c'.node hashNode) := hsc.root
      cases c' with
      | leaf q v => exact hb.elim
      | extension q d => exact hb.elim
      | branch ds v =>
        simp only [tryMergeExtension, hchild, Trie.node, createNode]
        rw [show hashNode (.extension p (Trie.digest hashNode (.branch ds v)))
          = Trie.digest hashNode (.extension p (.branch ds v)) from rfl,
          Store.insert_eq_self hroot]
    next hpre => rw [if_neg hpre]
  | branch cs w ih =>
    intro key fuel nodes hsh hs hf hidle
    obtain ⟨fuel, rfl⟩ := Trie.walkNeed_pos hf
    have hroot : nodes (Trie.digest hashNode (.branch cs w))
        = some (.branch (fun i => Trie.digestOpt hashNode (cs i)) w) := hs.root
    -- Removing the branch and simplifying it to itself.
    have hfile : Trie.simplify cs w = some (.branch cs w) →
        simplifyBranch hashNode (nodes.remove (Trie.digest hashNode (.branch cs w)))
            (fun i => Trie.digestOpt hashNode (cs i)) w
          = (nodes, some (Trie.digest hashNode (.branch cs w))) := by
      intro hsimp
      rw [simplifyBranch_idle _ cs w (hs.children_remove hinj) hsimp,
        Store.remove_insert_eq_self hs.root]
    cases key with
    | nil =>
      simp only [Trie.delete] at hidle
      obtain ⟨-, rfl⟩ := Trie.simplify_eq_branch hidle
      simp only [deleteRecursive, hroot, hfile hidle]
    | cons i rest =>
      simp only [Trie.delete] at hidle
      simp only [deleteRecursive, hroot]
      cases hi : cs i with
      | none => rfl
      | some c =>
        rw [hi, Option.isSome_some, if_pos rfl, Trie.deleteOpt_some] at hidle
        obtain ⟨hcs, -⟩ := Trie.simplify_eq_branch hidle
        have hc : c.delete rest = some c := by
          rw [← hi, hcs, Function.update_self]
        have hself : Function.update (fun j => Trie.digestOpt hashNode (cs j)) i
            (some (c.digest hashNode)) = fun j => Trie.digestOpt hashNode (cs j) :=
          Function.update_eq_self_iff.mpr (by rw [hi]; rfl)
        rw [← hcs] at hidle
        simp only [Trie.digestOpt_some]
        rw [ih i c hi rest fuel nodes (hsh.child hi) (hs.sub (.branch hi .refl))
          (Trie.walkNeed_child hf) hc]
        dsimp only
        rw [hself, hfile hidle]

end Injective

end Stored

end InterBit.Storage
