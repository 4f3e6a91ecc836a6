import Mathlib.Data.List.Induction

/-!
# Hash trees

The hash of a node is the hash of the two below it. A path is a list of siblings from the bottom to
the top, and climbing it computes what should be the hash of the root. `climb_eq_root_iff`: if the
hashes on the way do not collide with those of the tree, a path that climbs to the root is the path
of a node of the tree, or it begins below one of its leaves. Nothing says that the node is a leaf,
because a path does not say how long it has to be.
-/

namespace InterBit.Lib

variable {D : Type}

/-- A binary tree over digests. -/
inductive HashTree (D : Type) where
  | leaf (digest : D)
  | node (left right : HashTree D)

namespace HashTree

/-- The digests at the leaves, from the left to the right. -/
def leaves : HashTree D → List D
  | leaf digest => [digest]
  | node left right => left.leaves ++ right.leaves

/-- Whether there is something below. -/
def Interior : HashTree D → Prop
  | leaf _ => False
  | node _ _ => True

section Hash

variable (hash : D → D → D)

/-- The digest of the root. -/
def root : HashTree D → D
  | leaf digest => digest
  | node left right => hash (left.root) (right.root)

/-- What is hashed for the tree. -/
def pairs : HashTree D → List (D × D)
  | leaf _ => []
  | node left right => (left.root hash, right.root hash) :: (left.pairs ++ right.pairs)

/-- Hash a digest with the siblings of a path. -/
def climb (digest : D) (path : List D) : D := path.foldl hash digest

/-- What is hashed on the way. -/
def climbPairs : D → List D → List (D × D)
  | _, [] => []
  | digest, sibling :: path => (digest, sibling) :: climbPairs (hash digest sibling) path

/-- `path` is the list of the siblings on the way from a part of the tree to the top. -/
inductive At : HashTree D → List D → HashTree D → Prop where
  | top (tree : HashTree D) : At tree [] tree
  | left {left right part : HashTree D} {path : List D} :
    At left path part → At (node left right) (path ++ [right.root hash]) part
  | right {left right part : HashTree D} {path : List D} :
    At right path part → At (node left right) (path ++ [left.root hash]) part

end Hash

variable {hash : D → D → D}

theorem climb_concat (digest : D) (path : List D) (sibling : D) :
    climb hash digest (path ++ [sibling]) = hash (climb hash digest path) sibling :=
  List.foldl_append ..

theorem climb_append (digest : D) (below above : List D) :
    climb hash digest (below ++ above) = climb hash (climb hash digest below) above :=
  List.foldl_append ..

theorem climbPairs_append (digest : D) (below above : List D) :
    climbPairs hash digest (below ++ above)
      = climbPairs hash digest below ++ climbPairs hash (climb hash digest below) above := by
  induction below generalizing digest with
  | nil => rfl
  | cons sibling below ih => exact congrArg (_ :: ·) (ih _)

variable {tree part : HashTree D} {path : List D} {digest : D}

/-- From a part of the tree its path climbs to the root. -/
theorem At.climb_eq (hsymm : ∀ a b, hash a b = hash b a) (h : At hash tree path part) :
    climb hash (part.root hash) path = tree.root hash := by
  induction h with
  | top => rfl
  | left _ ih => rw [climb_concat, ih, root]
  | right _ ih => rw [climb_concat, ih, root, hsymm]

theorem At.leaves_subset (h : At hash tree path part) (hmem : digest ∈ part.leaves) :
    digest ∈ tree.leaves := by
  induction h with
  | top => exact hmem
  | left _ ih => exact List.mem_append_left _ (ih hmem)
  | right _ ih => exact List.mem_append_right _ (ih hmem)

theorem At.pairs_subset (h : At hash tree path part) {pair : D × D}
    (hmem : pair ∈ part.pairs hash) : pair ∈ tree.pairs hash := by
  induction h with
  | top => exact hmem
  | left _ ih => exact List.mem_cons_of_mem _ (List.mem_append_left _ (ih hmem))
  | right _ ih => exact List.mem_cons_of_mem _ (List.mem_append_right _ (ih hmem))

/-- The digest of an interior node is the hash of a pair of the tree. -/
theorem At.interior_root (h : At hash tree path part) (hinterior : part.Interior) :
    ∃ pair ∈ tree.pairs hash, hash pair.1 pair.2 = part.root hash := by
  cases part with
  | leaf digest => exact hinterior.elim
  | node left right => exact ⟨_, h.pairs_subset (List.mem_cons_self ..), rfl⟩

/-- Where a path that climbs to the root comes from. -/
def ComesFrom (hash : D → D → D) (tree : HashTree D) (digest : D) (path : List D) : Prop :=
  ∃ part below above, path = below ++ above ∧ At hash tree above part ∧
    climb hash digest below = part.root hash ∧ (below = [] ∨ ¬ part.Interior)

/-- A path climbs to the root exactly if it comes from a part of the tree, or from below a leaf. -/
theorem climb_eq_root_iff (hsymm : ∀ a b, hash a b = hash b a) {tree : HashTree D}
    (hcollision : ∀ pair ∈ tree.pairs hash, ∀ pair' ∈ climbPairs hash digest path,
      hash pair.1 pair.2 = hash pair'.1 pair'.2 → pair' = pair ∨ pair' = pair.swap) :
    climb hash digest path = tree.root hash ↔ ComesFrom hash tree digest path := by
  constructor
  · induction path using List.reverseRecOn generalizing tree with
    | nil => exact fun h => ⟨tree, [], [], rfl, .top tree, h, .inl rfl⟩
    | append_singleton path sibling ih =>
      intro h
      cases tree with
      | leaf leaf =>
        exact ⟨.leaf leaf, path ++ [sibling], [], (List.append_nil _).symm, .top _, h, .inr id⟩
      | node left right =>
        rw [climb_concat] at h
        have hwhole : climbPairs hash digest (path ++ [sibling])
            = climbPairs hash digest path ++ [(climb hash digest path, sibling)] :=
          climbPairs_append digest path [sibling]
        -- the siblings up to the last one meet the parts of the tree below its root
        have hbelow : ∀ {pair}, pair ∈ climbPairs hash digest path →
            pair ∈ climbPairs hash digest (path ++ [sibling]) :=
          fun hmem => hwhole ▸ List.mem_append_left _ hmem
        have hlast : (climb hash digest path, sibling)
            ∈ climbPairs hash digest (path ++ [sibling]) :=
          hwhole ▸ List.mem_append_right _ (List.mem_singleton_self _)
        rcases hcollision _ (List.mem_cons_self ..) _ hlast h.symm with hsame | hswapped
        · obtain ⟨hclimb, rfl⟩ := Prod.mk.inj hsame
          obtain ⟨part, below, above, rfl, hat, hrest⟩ := ih (fun pair hpair pair' hpair' =>
            hcollision pair (List.mem_cons_of_mem _ (List.mem_append_left _ hpair)) pair'
              (hbelow hpair')) hclimb
          exact ⟨part, below, _, List.append_assoc .., hat.left, hrest⟩
        · obtain ⟨hclimb, rfl⟩ := Prod.mk.inj hswapped
          obtain ⟨part, below, above, rfl, hat, hrest⟩ := ih (fun pair hpair pair' hpair' =>
            hcollision pair (List.mem_cons_of_mem _ (List.mem_append_right _ hpair)) pair'
              (hbelow hpair')) hclimb
          exact ⟨part, below, _, List.append_assoc .., hat.right, hrest⟩
  · rintro ⟨part, below, above, rfl, hat, hbelow, _⟩
    rw [climb_append, hbelow, hat.climb_eq hsymm]

/-! ## Level by level -/

/-- What becomes of the last node of a level if it has no neighbour. -/
inductive OddNode where
  | promoted
  | paired

/-- The level above. -/
def level (odd : OddNode) : List (HashTree D) → List (HashTree D)
  | [] => []
  | [last] =>
    match odd with
    | .promoted => [last]
    | .paired => [node last last]
  | first :: second :: rest => node first second :: level odd rest

theorem length_level_le (odd : OddNode) (trees : List (HashTree D)) :
    (level odd trees).length ≤ trees.length := by
  fun_induction level odd trees with
  | case1 => exact Nat.le_refl _
  | case2 last => exact Nat.le_refl _
  | case3 last => exact Nat.le_refl _
  | case4 first second rest ih =>
    rw [List.length_cons, List.length_cons, List.length_cons]
    omega

theorem mem_leaves_cons {tree : HashTree D} {trees : List (HashTree D)} :
    (∃ part ∈ tree :: trees, digest ∈ part.leaves) ↔
      digest ∈ tree.leaves ∨ ∃ part ∈ trees, digest ∈ part.leaves := by
  constructor
  · rintro ⟨part, hmem, hdigest⟩
    rcases List.mem_cons.mp hmem with rfl | hrest
    · exact .inl hdigest
    · exact .inr ⟨part, hrest, hdigest⟩
  · rintro (hdigest | ⟨part, hrest, hdigest⟩)
    · exact ⟨tree, List.mem_cons_self .., hdigest⟩
    · exact ⟨part, List.mem_cons_of_mem _ hrest, hdigest⟩

theorem mem_leaves_node {left right : HashTree D} :
    digest ∈ (node left right).leaves ↔ digest ∈ left.leaves ∨ digest ∈ right.leaves :=
  List.mem_append

theorem mem_leaves_level (odd : OddNode) (trees : List (HashTree D)) (digest : D) :
    (∃ tree ∈ level odd trees, digest ∈ tree.leaves) ↔ ∃ tree ∈ trees, digest ∈ tree.leaves := by
  fun_induction level odd trees with
  | case1 => exact Iff.rfl
  | case2 last => exact Iff.rfl
  | case3 last =>
    rw [mem_leaves_cons, mem_leaves_cons, mem_leaves_node, or_self]
  | case4 first second rest ih =>
    rw [mem_leaves_cons, mem_leaves_cons, mem_leaves_cons, ih, mem_leaves_node, or_assoc]

/-- One level after the other up to the root, over a level of at least one node. -/
def build (odd : OddNode) (first : HashTree D) : List (HashTree D) → HashTree D
  | [] => first
  | second :: rest => build odd (node first second) (level odd rest)
  termination_by rest => rest.length
  decreasing_by exact Nat.lt_succ_of_le (length_level_le odd rest)

theorem mem_leaves_build (odd : OddNode) (first : HashTree D) (rest : List (HashTree D))
    (digest : D) : digest ∈ (build odd first rest).leaves ↔
      digest ∈ first.leaves ∨ ∃ tree ∈ rest, digest ∈ tree.leaves := by
  fun_induction build odd first rest with
  | case1 first => exact (or_iff_left fun ⟨_, hmem, _⟩ => absurd hmem List.not_mem_nil).symm
  | case2 first second rest ih =>
    rw [ih, mem_leaves_level, mem_leaves_node, mem_leaves_cons, or_assoc]

/-- The tree over a list of digests that is not empty. -/
def ofDigests (odd : OddNode) (first : D) (rest : List D) : HashTree D :=
  build odd (leaf first) (rest.map leaf)

/-- A tree of digests has these digests for leaves. -/
theorem mem_leaves_ofDigests {odd : OddNode} {first : D} {rest : List D} :
    digest ∈ (ofDigests odd first rest).leaves ↔ digest ∈ first :: rest := by
  rw [ofDigests, mem_leaves_build, List.mem_cons, leaves, List.mem_singleton]
  refine or_congr_right ⟨?_, fun hmem => ?_⟩
  · rintro ⟨tree, hmem, hsame⟩
    obtain ⟨digest', hrest, rfl⟩ := List.mem_map.mp hmem
    exact List.mem_singleton.mp hsame ▸ hrest
  · exact ⟨leaf digest, List.mem_map_of_mem hmem, List.mem_singleton_self _⟩

end HashTree

end InterBit.Lib
