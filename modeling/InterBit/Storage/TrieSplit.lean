import InterBit.Lib.RadixEntries
import InterBit.Storage.TrieRun

/-!
# What a split of the trie denotes

Where a new key leaves the path of a leaf or of an extension, `insert_recursive` puts a branch
there. This file asks what the branch holds, for paths that come back from their encoding as they
were: `from_nibbles` and `to_nibbles` are parameters (`PathCodec`), and those of the source are one
instance. The functions are those of `MerkleTrie` again, with the parameters in the place of the
two (`splitAndInsert_source`, `splitExtension_source`).

`split_sets_iff`: the split of an extension is right in all its shapes. `split_and_insert` gives the
branch the old leaf's value unless the new key ends there, also when it has put the old leaf below
the branch, so that the common prefix becomes a key with the old value.
-/

namespace InterBit.Storage

open InterBit.Lib InterBit.Lib.Entries

/-- `from_nibbles` and `to_nibbles`. -/
structure PathCodec where
  fromNibbles : List Nibble → NibblePath
  toNibbles : NibblePath → List Nibble

namespace PathCodec

/-- The two functions of the source. -/
def source : PathCodec :=
  { fromNibbles := NibblePath.fromNibbles, toNibbles := NibblePath.toNibbles }

/-- Every nibble list comes back as it was. -/
def RoundTrips (codec : PathCodec) : Prop :=
  ∀ nibbles, codec.toNibbles (codec.fromNibbles nibbles) = nibbles

variable {H : Type} (codec : PathCodec)

/-- The value that `get_recursive` returns. -/
def getRecursive (nodes : Nodes H) : Nat → H → List Nibble → Option Value
  | 0, _, _ => none
  | fuel + 1, nodeHash, key =>
    match nodes nodeHash with
    | none => none
    | some .empty => none
    | some (.leaf leafPath value) => if key = codec.toNibbles leafPath then some value else none
    | some (.extension extPath child) =>
      if codec.toNibbles extPath <+: key then
        getRecursive nodes fuel child (key.drop (codec.toNibbles extPath).length)
      else none
    | some (.branch children value) =>
      match key with
      | [] => value
      | i :: rest =>
        match children i with
        | some childHash => getRecursive nodes fuel childHash rest
        | none => none

/-- What a subtrie holds: the keys for which `get_recursive` returns a value. -/
def entries (nodes : Nodes H) (hash : H) : Entries Nibble Value :=
  fun key value => ∃ fuel, codec.getRecursive nodes fuel hash key = some value

section Split

variable [DecidableEq H] (hashNode : Node H → H)

/-- A leaf for what follows position `commonLen`. -/
def placeLeaf (nodes : Nodes H) (children : Fin 16 → Option H) (key : List Nibble)
    (commonLen : Nat) (value : Value) : Nodes H × (Fin 16 → Option H) :=
  match key.drop commonLen with
  | [] => (nodes, children)
  | i :: rest =>
    let (nodes, leafHash) := createNode hashNode nodes (.leaf (codec.fromNibbles rest) value)
    (nodes, Function.update children i (some leafHash))

/-- What is left of an extension past position `commonLen`. -/
def placeExtension (nodes : Nodes H) (children : Fin 16 → Option H) (extNibbles : List Nibble)
    (commonLen : Nat) (child : H) : Nodes H × (Fin 16 → Option H) :=
  match extNibbles.drop commonLen with
  | [] => (nodes, children)
  | [i] => (nodes, Function.update children i (some child))
  | i :: rest =>
    let (nodes, extHash) := createNode hashNode nodes (.extension (codec.fromNibbles rest) child)
    (nodes, Function.update children i (some extHash))

/-- The branch, and an extension over it for a common prefix. -/
def createBranch (nodes : Nodes H) (children : Fin 16 → Option H) (value : Option Value)
    (common : List Nibble) : Nodes H × H :=
  let (nodes, branchHash) := createNode hashNode nodes (.branch children value)
  if common.length > 0 then
    createNode hashNode nodes (.extension (codec.fromNibbles common) branchHash)
  else (nodes, branchHash)

/-- `split_and_insert`. -/
def splitAndInsert (nodes : Nodes H) (key : List Nibble) (value : Value)
    (existingKey : List Nibble) (existingValue : Option Value) (commonLen : Nat) :
    Nodes H × H :=
  let (nodes, children) := codec.placeLeaf hashNode nodes (fun _ => none) key commonLen value
  let (nodes, children) :=
    match existingValue with
    | some val => codec.placeLeaf hashNode nodes children existingKey commonLen val
    | none => (nodes, children)
  codec.createBranch hashNode nodes children
    (if key.length = commonLen then some value else existingValue) (key.take commonLen)

/-- `split_extension`. -/
def splitExtension (nodes : Nodes H) (key : List Nibble) (value : Value)
    (extNibbles : List Nibble) (child : H) (commonLen : Nat) : Nodes H × H :=
  let (nodes, children) := codec.placeLeaf hashNode nodes (fun _ => none) key commonLen value
  let (nodes, children) := codec.placeExtension hashNode nodes children extNibbles commonLen child
  codec.createBranch hashNode nodes children
    (if key.length = commonLen then some value else none) (extNibbles.take commonLen)

/-- The leaf and extension cases of `insert_recursive`, where they split: the remaining key leaves
the path. -/
def split (nodes : Nodes H) (key : List Nibble) (value : Value) : Node H → Option (Nodes H × H)
  | .leaf leafPath leafValue =>
    let leafNibbles := codec.toNibbles leafPath
    let commonLen := commonPrefixLen key leafNibbles
    if commonLen = leafNibbles.length ∧ commonLen = key.length then none
    else some (codec.splitAndInsert hashNode nodes key value leafNibbles (some leafValue) commonLen)
  | .extension extPath child =>
    let extNibbles := codec.toNibbles extPath
    let commonLen := commonPrefixLen key extNibbles
    if commonLen = extNibbles.length then none
    else some (codec.splitExtension hashNode nodes key value extNibbles child commonLen)
  | _ => none

end Split

/-- The path of a leaf ends at the split, or the key does. -/
def EndsAtSplit (key : List Nibble) : Node H → Prop
  | .leaf leafPath _ => key <+: codec.toNibbles leafPath ∨ codec.toNibbles leafPath <+: key
  | _ => True

/-! ## The source's functions -/

section Source

variable [DecidableEq H] (hashNode : Node H → H)

omit [DecidableEq H] in
theorem getRecursive_source (nodes : Nodes H) (fuel : Nat) : ∀ (hash : H) (key : List Nibble),
    source.getRecursive nodes fuel hash key = (Storage.getRecursive nodes fuel hash key).1 := by
  induction fuel with
  | zero => exact fun _ _ => rfl
  | succ fuel ih =>
    intro hash key
    simp only [getRecursive, Storage.getRecursive]
    match nodes hash with
    | none => rfl
    | some .empty => rfl
    | some (.leaf _ _) => rfl
    | some (.extension extPath child) =>
      dsimp only
      by_cases hprefix : extPath.toNibbles <+: key
      · rw [if_pos hprefix]
        exact (if_pos hprefix).trans (ih child _)
      · rw [if_neg hprefix]
        exact if_neg hprefix
    | some (.branch children value) =>
      match key with
      | [] => rfl
      | i :: rest =>
        dsimp only
        match children i with
        | none => rfl
        | some childHash => exact ih childHash rest

theorem splitAndInsert_source : source.splitAndInsert hashNode = Storage.splitAndInsert hashNode :=
  rfl

theorem splitExtension_source :
    source.splitExtension hashNode = Storage.splitExtension hashNode := rfl

end Source

/-! ## What a node holds -/

section Entries

variable {codec : PathCodec} {nodes : Nodes H} {hash : H}

/-- What the children of a branch hold. -/
def slots (codec : PathCodec) (nodes : Nodes H) (children : Fin 16 → Option H) :
    Nibble → Entries Nibble Value :=
  fun i => match children i with
    | some child => codec.entries nodes child
    | none => fun _ _ => False

theorem slots_of_some {children : Fin 16 → Option H} {i : Nibble} {child : H}
    (h : children i = some child) : codec.slots nodes children i = codec.entries nodes child := by
  simp only [slots, h]

/-- An empty slot has none. -/
theorem slots_of_none {children : Fin 16 → Option H} {i : Nibble} (h : children i = none) :
    codec.slots nodes children i = fun _ _ => False := by
  simp only [slots, h]

/-- A leaf has one entry, at the end of its path. -/
theorem entries_leaf {path : NibblePath} {value : Value}
    (h : nodes hash = some (.leaf path value)) :
    codec.entries nodes hash = below (codec.toNibbles path) (atEnd value) := by
  refine Entries.ext fun key v => ?_
  have hget : ∀ fuel, codec.getRecursive nodes (fuel + 1) hash key
      = if key = codec.toNibbles path then some value else none := fun fuel => by
    simp only [getRecursive, h]
  rw [below_atEnd]
  constructor
  · rintro ⟨fuel, hfound⟩
    cases fuel with
    | zero => cases hfound
    | succ fuel =>
      rw [hget] at hfound
      split at hfound
      next hkey => exact ⟨hkey, (Option.some.inj hfound).symm⟩
      next => cases hfound
  · rintro ⟨hkey, rfl⟩
    exact ⟨1, by rw [hget, if_pos hkey]⟩

/-- An extension has the entries of its child, below its path. -/
theorem entries_extension {path : NibblePath} {child : H}
    (h : nodes hash = some (.extension path child)) :
    codec.entries nodes hash = below (codec.toNibbles path) (codec.entries nodes child) := by
  refine Entries.ext fun key v => ?_
  have hget : ∀ fuel, codec.getRecursive nodes (fuel + 1) hash key
      = if codec.toNibbles path <+: key then
          codec.getRecursive nodes fuel child (key.drop (codec.toNibbles path).length)
        else none := fun fuel => by
    simp only [getRecursive, h]
  constructor
  · rintro ⟨fuel, hfound⟩
    cases fuel with
    | zero => cases hfound
    | succ fuel =>
      rw [hget] at hfound
      split at hfound
      next hprefix =>
        obtain ⟨rest, rfl⟩ := hprefix
        rw [List.drop_left] at hfound
        exact ⟨rest, rfl, fuel, hfound⟩
      next => cases hfound
  · rintro ⟨rest, rfl, fuel, hfound⟩
    refine ⟨fuel + 1, ?_⟩
    rw [hget, if_pos (List.prefix_append ..), List.drop_left]
    exact hfound

/-- A branch has its own value and the entries of its slots. -/
theorem entries_branch {children : Fin 16 → Option H} {value : Option Value}
    (h : nodes hash = some (.branch children value)) :
    codec.entries nodes hash = fork value (codec.slots nodes children) := by
  refine Entries.ext fun key v => ?_
  cases key with
  | nil =>
    rw [fork_nil]
    have hget : ∀ fuel, codec.getRecursive nodes (fuel + 1) hash [] = value := fun fuel => by
      simp only [getRecursive, h]
    constructor
    · rintro ⟨fuel, hfound⟩
      cases fuel with
      | zero => cases hfound
      | succ fuel => exact (hget fuel).symm.trans hfound
    · exact fun hvalue => ⟨1, (hget 0).trans hvalue⟩
  | cons i rest =>
    rw [fork_cons]
    match hchild : children i with
    | none =>
      rw [slots_of_none hchild]
      refine iff_of_false ?_ id
      rintro ⟨fuel, hfound⟩
      cases fuel with
      | zero => cases hfound
      | succ fuel =>
        simp only [getRecursive, h, hchild] at hfound
        cases hfound
    | some childHash =>
      rw [slots_of_some hchild]
      -- a letter costs one unit of fuel
      have hget : ∀ fuel, codec.getRecursive nodes (fuel + 1) hash (i :: rest)
          = codec.getRecursive nodes fuel childHash rest := fun fuel => by
        simp only [getRecursive, h, hchild]
      constructor
      · rintro ⟨fuel, hfound⟩
        cases fuel with
        | zero => cases hfound
        | succ fuel => exact ⟨fuel, (hget fuel).symm.trans hfound⟩
      · rintro ⟨fuel, hfound⟩
        exact ⟨fuel + 1, (hget fuel).trans hfound⟩

end Entries

/-! ## What is filed stays -/

section Retain

variable {codec : PathCodec} {hashNode : Node H → H}

/-- What is filed under its own hash is filed there afterwards. -/
def Retains (hashNode : Node H → H) (nodes nodes' : Nodes H) : Prop :=
  ∀ hash node, nodes hash = some node → hashNode node = hash → nodes' hash = some node

theorem Retains.closed {nodes nodes' : Nodes H} {hash : H} (h : Retains hashNode nodes nodes')
    (hclosed : Closed hashNode Node.Edge nodes hash) : Closed hashNode Node.Edge nodes' hash := by
  refine closed_of_invariant (S := Reaches Node.Edge nodes hash) .root fun x hx => ?_
  obtain ⟨node, hnode, hdigest⟩ := hclosed x hx
  exact ⟨node, h x node hnode hdigest, hdigest, fun y hy => hx.step hnode hy⟩

/-- What the edges of a filed node lead to is closed, and so is the node. -/
theorem closed_of_edges {nodes : Nodes H} {hash : H} {node : Node H}
    (hnode : nodes hash = some node) (hdigest : hashNode node = hash)
    (hedges : ∀ y, Node.Edge node y → Closed hashNode Node.Edge nodes y) :
    Closed hashNode Node.Edge nodes hash := by
  refine closed_of_invariant
    (S := fun x => x = hash ∨ ∃ y, Node.Edge node y ∧ Reaches Node.Edge nodes y x) (Or.inl rfl)
    fun x hx => ?_
  rcases hx with rfl | ⟨y, hy, hreaches⟩
  · exact ⟨node, hnode, hdigest, fun y hy => Or.inr ⟨y, hy, .root⟩⟩
  · obtain ⟨node', hnode', hdigest'⟩ := hedges y hy x hreaches
    exact ⟨node', hnode', hdigest', fun z hz => Or.inr ⟨y, hy, hreaches.step hnode' hz⟩⟩

theorem closed_edge {nodes : Nodes H} {hash y : H} {node : Node H}
    (hclosed : Closed hashNode Node.Edge nodes hash) (hnode : nodes hash = some node)
    (hedge : Node.Edge node y) : Closed hashNode Node.Edge nodes y := by
  intro x hx
  refine hclosed x ?_
  induction hx with
  | root => exact Reaches.root.step hnode hedge
  | step _ hn he ih => exact ih.step hn he

/-- A closed subtrie holds what it held. -/
theorem Retains.entries {nodes nodes' : Nodes H} {hash : H} (h : Retains hashNode nodes nodes')
    (hclosed : Closed hashNode Node.Edge nodes hash) :
    codec.entries nodes' hash = codec.entries nodes hash := by
  have hget : ∀ fuel x key, Reaches Node.Edge nodes hash x →
      codec.getRecursive nodes' fuel x key = codec.getRecursive nodes fuel x key := by
    intro fuel
    induction fuel with
    | zero => exact fun _ _ _ => rfl
    | succ fuel ih =>
      intro x key hx
      obtain ⟨node, hnode, hdigest⟩ := hclosed x hx
      simp only [getRecursive, hnode, h x node hnode hdigest]
      cases node with
      | empty => rfl
      | leaf path value => rfl
      | extension path child =>
        dsimp only
        rw [ih child _ (hx.step hnode rfl)]
      | branch children value =>
        cases key with
        | nil => rfl
        | cons i rest =>
          dsimp only
          match hchild : children i with
          | none => rfl
          | some child => exact ih child rest (hx.step hnode ⟨i, hchild⟩)
  refine Entries.ext fun key v => exists_congr fun fuel => ?_
  rw [hget fuel hash key .root]

end Retain

/-! ## What the parts of a split build -/

section Build

variable [DecidableEq H] {codec : PathCodec} {hashNode : Node H → H}
  (hcodec : codec.RoundTrips) (hinj : Function.Injective hashNode)

/-- All children of a branch are closed. -/
def ChildrenClosed (hashNode : Node H → H) (nodes : Nodes H) (children : Fin 16 → Option H) :
    Prop :=
  ∀ i child, children i = some child → Closed hashNode Node.Edge nodes child

theorem createNode_eq (nodes : Nodes H) (node : Node H) :
    (createNode hashNode nodes node).1 (createNode hashNode nodes node).2 = some node :=
  Store.insert_self ..

include hinj in
theorem retains_createNode (nodes : Nodes H) (node : Node H) :
    Retains hashNode nodes (createNode hashNode nodes node).1 := by
  intro x node' hnode' hdigest
  show nodes.insert (hashNode node) node x = some node'
  by_cases hx : x = hashNode node
  · rw [hx, Store.insert_self, hinj (hdigest.trans hx)]
  · rw [Store.insert_ne _ hx]
    exact hnode'

/-- A new node over closed ones is closed. -/
theorem closed_createNode (hinj : Function.Injective hashNode) {nodes : Nodes H} {node : Node H}
    (hedges : ∀ y, Node.Edge node y → Closed hashNode Node.Edge nodes y) :
    Closed hashNode Node.Edge (createNode hashNode nodes node).1
      (createNode hashNode nodes node).2 :=
  closed_of_edges (createNode_eq nodes node) rfl
    fun y hy => (retains_createNode hinj nodes node).closed (hedges y hy)

omit [DecidableEq H] in
/-- A closed subtrie as a new child. -/
theorem slots_update {nodes nodes' : Nodes H} {children : Fin 16 → Option H} {i : Nibble}
    {rest : List Nibble} {m : Entries Nibble Value} {child : H}
    (hretains : Retains hashNode nodes nodes')
    (hclosed : ChildrenClosed hashNode nodes children)
    (hchild : Closed hashNode Node.Edge nodes' child)
    (hentries : codec.entries nodes' child = below rest m) :
    ChildrenClosed hashNode nodes' (Function.update children i (some child)) ∧
      codec.slots nodes' (Function.update children i (some child))
        = place (i :: rest) m (codec.slots nodes children) := by
  constructor
  · intro j child' h
    by_cases hj : j = i
    · subst hj
      rw [Function.update_self] at h
      exact Option.some.inj h ▸ hchild
    · rw [Function.update_of_ne hj] at h
      exact hretains.closed (hclosed j child' h)
  · funext j
    by_cases hj : j = i
    · subst hj
      rw [place_self, slots_of_some (Function.update_self ..), hentries]
    · rw [place_of_ne hj]
      match hold : children j with
      | none =>
        rw [slots_of_none hold, slots_of_none ((Function.update_of_ne hj ..).trans hold)]
      | some child' =>
        rw [slots_of_some hold, slots_of_some ((Function.update_of_ne hj ..).trans hold)]
        exact hretains.entries (hclosed j child' hold)

/-- What a part of a split leaves: everything filed is still there, and the children hold `m`. -/
structure Placed (codec : PathCodec) (hashNode : Node H → H) (nodes : Nodes H)
    (placed : Nodes H × (Fin 16 → Option H)) (m : Nibble → Entries Nibble Value) : Prop where
  retains : Retains hashNode nodes placed.1
  closed : ChildrenClosed hashNode placed.1 placed.2
  slots : codec.slots placed.1 placed.2 = m

include hcodec hinj in
/-- A leaf that is placed adds its entry to the slots. -/
theorem placed_placeLeaf {nodes : Nodes H} {children : Fin 16 → Option H}
    (hclosed : ChildrenClosed hashNode nodes children) (key : List Nibble) (commonLen : Nat)
    (value : Value) :
    Placed codec hashNode nodes (codec.placeLeaf hashNode nodes children key commonLen value)
      (place (key.drop commonLen) (atEnd value) (codec.slots nodes children)) := by
  unfold placeLeaf
  match key.drop commonLen with
  | [] => exact ⟨fun _ _ h _ => h, hclosed, rfl⟩
  | i :: rest =>
    have hretains := retains_createNode hinj nodes (.leaf (codec.fromNibbles rest) value)
    have hchild := @closed_createNode H _ _ hinj nodes (.leaf (codec.fromNibbles rest) value)
      fun y hy => hy.elim
    have hentries := @entries_leaf H codec _ _ _ _
      (@createNode_eq H _ hashNode nodes (.leaf (codec.fromNibbles rest) value))
    rw [hcodec] at hentries
    obtain ⟨hclosed', hslots⟩ := slots_update (i := i) hretains hclosed hchild hentries
    exact ⟨hretains, hclosed', hslots⟩

include hcodec hinj in
/-- What is left of an extension adds the child's entries to the slots. -/
theorem placed_placeExtension {nodes : Nodes H} {children : Fin 16 → Option H} {child : H}
    (hclosed : ChildrenClosed hashNode nodes children)
    (hchild : Closed hashNode Node.Edge nodes child) (extNibbles : List Nibble) (commonLen : Nat) :
    Placed codec hashNode nodes
      (codec.placeExtension hashNode nodes children extNibbles commonLen child)
      (place (extNibbles.drop commonLen) (codec.entries nodes child)
        (codec.slots nodes children)) := by
  unfold placeExtension
  match extNibbles.drop commonLen with
  | [] => exact ⟨fun _ _ h _ => h, hclosed, rfl⟩
  | [i] =>
    obtain ⟨hclosed', hslots⟩ := @slots_update H codec hashNode nodes nodes children i [] _ child
      (fun _ _ h _ => h) hclosed hchild (below_nil _).symm
    exact ⟨fun _ _ h _ => h, hclosed', hslots⟩
  | i :: i' :: rest =>
    have hretains :=
      retains_createNode hinj nodes (.extension (codec.fromNibbles (i' :: rest)) child)
    have hext := @closed_createNode H _ _ hinj nodes
      (.extension (codec.fromNibbles (i' :: rest)) child) fun y hy => hy ▸ hchild
    have hentries := @entries_extension H codec _ _ _ _
      (@createNode_eq H _ hashNode nodes (.extension (codec.fromNibbles (i' :: rest)) child))
    rw [hcodec, hretains.entries hchild] at hentries
    obtain ⟨hclosed', hslots⟩ := slots_update (i := i) hretains hclosed hext hentries
    exact ⟨hretains, hclosed', hslots⟩

include hcodec hinj in
/-- The new branch has the entries of a fork, below the common path. -/
theorem entries_createBranch {nodes : Nodes H} {children : Fin 16 → Option H}
    (hclosed : ChildrenClosed hashNode nodes children) (value : Option Value)
    (common : List Nibble) :
    codec.entries (codec.createBranch hashNode nodes children value common).1
        (codec.createBranch hashNode nodes children value common).2
      = below common (fork value (codec.slots nodes children)) := by
  have hretains := retains_createNode hinj nodes (.branch children value)
  have hedges : ∀ y, Node.Edge (.branch children value) y →
      Closed hashNode Node.Edge nodes y := fun y ⟨i, hi⟩ => hclosed i y hi
  have hclosedBranch := closed_createNode hinj hedges
  have hslots : codec.slots (createNode hashNode nodes (.branch children value)).1 children
      = codec.slots nodes children := by
    funext i
    match hchild : children i with
    | none => rw [slots_of_none hchild, slots_of_none hchild]
    | some child =>
      rw [slots_of_some hchild, slots_of_some hchild, hretains.entries (hclosed i child hchild)]
  have hbranch := @entries_branch H codec _ _ _ _
    (@createNode_eq H _ hashNode nodes (.branch children value))
  rw [hslots] at hbranch
  unfold createBranch
  dsimp only
  split
  next =>
    rw [entries_extension (createNode_eq ..), hcodec,
      (retains_createNode hinj _ _).entries hclosedBranch, hbranch]
  next hnone =>
    rw [List.length_eq_zero_iff.mp (Nat.eq_zero_of_not_pos hnone), below_nil]
    exact hbranch

end Build

/-! ## The common prefix -/

/-- The two words have the common prefix in common. -/
theorem take_commonPrefixLen : ∀ key path : List Nibble,
    key.take (commonPrefixLen key path) = path.take (commonPrefixLen key path)
  | [], _ => by simp only [commonPrefixLen, List.take_zero]
  | _ :: _, [] => by simp only [commonPrefixLen, List.take_zero]
  | a :: as, b :: bs => by
    simp only [commonPrefixLen]
    split
    next h => rw [List.take_succ_cons, List.take_succ_cons, take_commonPrefixLen as bs, h]
    next => rw [List.take_zero, List.take_zero]

/-- After the common prefix the two go on differently. -/
theorem drop_commonPrefixLen_ne :
    ∀ {key path : List Nibble} {i j : Nibble} {rest rest' : List Nibble},
    key.drop (commonPrefixLen key path) = i :: rest →
    path.drop (commonPrefixLen key path) = j :: rest' → i ≠ j
  | [], _, _, _, _, _, hkey, _ => by cases (List.drop_nil.symm.trans hkey)
  | _ :: _, [], _, _, _, _, _, hpath => by cases (List.drop_nil.symm.trans hpath)
  | a :: as, b :: bs, i, j, rest, rest', hkey, hpath => by
    simp only [commonPrefixLen] at hkey hpath
    split at hkey
    next h =>
      rw [if_pos h] at hpath
      rw [List.drop_succ_cons] at hkey hpath
      exact drop_commonPrefixLen_ne hkey hpath
    next h =>
      rw [if_neg h, List.drop_zero] at hpath
      rw [List.drop_zero] at hkey
      rw [← (List.cons.inj hkey).1, ← (List.cons.inj hpath).1]
      exact h

/-- The words may be swapped. -/
theorem commonPrefixLen_comm : ∀ key path : List Nibble,
    commonPrefixLen key path = commonPrefixLen path key
  | [], [] => rfl
  | [], _ :: _ => rfl
  | _ :: _, [] => rfl
  | a :: as, b :: bs => by
    simp only [commonPrefixLen, commonPrefixLen_comm as bs, eq_comm (a := a)]

/-- What is left of a path after the common prefix. -/
theorem drop_eq_nil_iff_prefix (key path : List Nibble) :
    path.drop (commonPrefixLen key path) = [] ↔ path <+: key := by
  rw [← commonPrefixLen_eq_length_iff, List.drop_eq_nil_iff]
  have hle := commonPrefixLen_le_right key path
  omega

/-! ## The two splits -/

section Main

variable [DecidableEq H] {codec : PathCodec} {hashNode : Node H → H}

/-- The value that a split gives its branch if the key ends there. -/
theorem endValue (key path : List Nibble) (value : Value) (other : Option Value) :
    (if key.length = commonPrefixLen key path then some value else other)
      = match key.drop (commonPrefixLen key path) with
        | [] => some value
        | _ :: _ => other := by
  have hle := commonPrefixLen_le_left key path
  split
  next h => rw [List.drop_eq_nil_of_le (Nat.le_of_eq h)]
  next h =>
    match hdrop : key.drop (commonPrefixLen key path) with
    | [] =>
      have := List.drop_eq_nil_iff.mp hdrop
      omega
    | _ :: _ => rfl

/-- What `split_and_insert` builds holds. -/
theorem entries_splitAndInsert (hcodec : codec.RoundTrips) (hinj : Function.Injective hashNode)
    (nodes : Nodes H) (key : List Nibble) (value : Value) (existingKey : List Nibble)
    (old : Value) (n : Nat) :
    codec.entries (codec.splitAndInsert hashNode nodes key value existingKey (some old) n).1
        (codec.splitAndInsert hashNode nodes key value existingKey (some old) n).2
      = below (key.take n) (fork (if key.length = n then some value else some old)
          (place (existingKey.drop n) (atEnd old)
            (place (key.drop n) (atEnd value) noSlots))) := by
  have hempty : ChildrenClosed hashNode nodes fun _ => none := fun _ _ h => nomatch h
  have hfirst := placed_placeLeaf hcodec hinj hempty key n value
  have hsecond := placed_placeLeaf hcodec hinj hfirst.closed existingKey n old
  unfold splitAndInsert
  dsimp only
  rw [entries_createBranch hcodec hinj hsecond.closed, hsecond.slots, hfirst.slots]
  rfl

/-- What `split_extension` builds holds. -/
theorem entries_splitExtension (hcodec : codec.RoundTrips) (hinj : Function.Injective hashNode)
    {nodes : Nodes H} {child : H} (hchild : Closed hashNode Node.Edge nodes child)
    (key : List Nibble) (value : Value) (extNibbles : List Nibble) (n : Nat) :
    codec.entries (codec.splitExtension hashNode nodes key value extNibbles child n).1
        (codec.splitExtension hashNode nodes key value extNibbles child n).2
      = below (extNibbles.take n) (fork (if key.length = n then some value else none)
          (place (extNibbles.drop n) (codec.entries nodes child)
            (place (key.drop n) (atEnd value) noSlots))) := by
  have hempty : ChildrenClosed hashNode nodes fun _ => none := fun _ _ h => nomatch h
  have hfirst := placed_placeLeaf hcodec hinj hempty key n value
  have hsecond := placed_placeExtension hcodec hinj hfirst.closed (hfirst.retains.closed hchild)
    extNibbles n
  unfold splitExtension
  dsimp only
  rw [entries_createBranch hcodec hinj hsecond.closed, hsecond.slots, hfirst.slots,
    hfirst.retains.entries hchild]
  rfl

/-- What a subtrie holds after an insertion, below the common prefix of key and path. -/
theorem set_below_path (key path : List Nibble) (value : Value) (m : Entries Nibble Value) :
    set key value (below path m)
      = below (path.take (commonPrefixLen key path))
          (set (key.drop (commonPrefixLen key path)) value
            (below (path.drop (commonPrefixLen key path)) m)) := by
  have hkey := List.take_append_drop (commonPrefixLen key path) key
  rw [take_commonPrefixLen] at hkey
  rw [← set_below_shared, ← below_append, hkey, List.take_append_drop]

section Shapes

variable {word rest : List Nibble}

/-- Where a leaf is split, `word` being left of the key and `rest` of the path, the branch is right
exactly if one of them ends there. -/
theorem splitLeaf_eq_iff (shared : List Nibble) (value old : Value)
    (hne : ∀ {i j : Nibble} {word' rest' : List Nibble}, word = i :: word' → rest = j :: rest' →
      i ≠ j) (hboth : ¬ (word = [] ∧ rest = [])) :
    below shared (fork (match word with
        | [] => some value
        | _ :: _ => some old) (place rest (atEnd old) (place word (atEnd value) noSlots)))
      = below shared (set word value (below rest (atEnd old))) ↔ word = [] ∨ rest = [] := by
  match word, rest with
  | [], [] => exact absurd ⟨rfl, rfl⟩ hboth
  | [], j :: rest =>
    exact iff_of_true (congrArg _ (set_nil_below value j rest _).symm) (Or.inl rfl)
  | i :: word, [] =>
    rw [below_nil]
    exact iff_of_true (congrArg _ (set_cons_atEnd i word value old).symm) (Or.inr rfl)
  | i :: word, j :: rest =>
    -- The branch has the old value, where it should have none.
    refine iff_of_false (fun heq => ?_) nofun
    have hfork := below_injective heq
    rw [set_cons_below (hne rfl rfl)] at hfork
    cases fork_injective hfork

/-- Where an extension is split, the branch is right. -/
theorem splitExtension_eq (value : Value) (m : Entries Nibble Value)
    (hne : ∀ {i j : Nibble} {word' rest' : List Nibble}, word = i :: word' → rest = j :: rest' →
      i ≠ j) (hgoesOn : rest ≠ []) :
    fork (match word with
        | [] => some value
        | _ :: _ => none) (place rest m (place word (atEnd value) noSlots))
      = set word value (below rest m) := by
  match word, rest with
  | _, [] => exact absurd rfl hgoesOn
  | [], j :: rest => exact (set_nil_below value j rest _).symm
  | i :: word, j :: rest => exact (set_cons_below (hne rfl rfl) word rest value _).symm

end Shapes

/-- A split denotes the insertion exactly if it splits an extension, or a leaf that, or a key that,
ends at the split. -/
theorem split_sets_iff (hcodec : codec.RoundTrips) (hinj : Function.Injective hashNode)
    {nodes nodes' : Nodes H} {hash hash' : H} {node : Node H} {key : List Nibble} {value : Value}
    (hnode : nodes hash = some node) (hclosed : Closed hashNode Node.Edge nodes hash)
    (hsplit : codec.split hashNode nodes key value node = some (nodes', hash')) :
    codec.entries nodes' hash' = set key value (codec.entries nodes hash) ↔
      codec.EndsAtSplit key node := by
  cases node with
  | empty => cases hsplit
  | branch children branchValue => cases hsplit
  | leaf path old =>
    unfold split at hsplit
    dsimp only at hsplit
    split at hsplit
    next => cases hsplit
    next hleaves =>
      have hentries := entries_splitAndInsert hcodec hinj nodes key value (codec.toNibbles path) old
        (commonPrefixLen key (codec.toNibbles path))
      rw [Option.some.inj hsplit] at hentries
      have hpath := drop_eq_nil_iff_prefix key (codec.toNibbles path)
      have hkey := drop_eq_nil_iff_prefix (codec.toNibbles path) key
      rw [commonPrefixLen_comm] at hkey
      -- the split is for different words, so not both of them end where they part
      have hboth : ¬ (key.drop (commonPrefixLen key (codec.toNibbles path)) = [] ∧
          (codec.toNibbles path).drop (commonPrefixLen key (codec.toNibbles path)) = []) := by
        intro ⟨hkeyEnds, hpathEnds⟩
        have hkeyLength := List.drop_eq_nil_iff.mp hkeyEnds
        have hpathLength := List.drop_eq_nil_iff.mp hpathEnds
        have hkeyLe := commonPrefixLen_le_left key (codec.toNibbles path)
        have hpathLe := commonPrefixLen_le_right key (codec.toNibbles path)
        exact hleaves ⟨by omega, by omega⟩
      show _ ↔ key <+: codec.toNibbles path ∨ codec.toNibbles path <+: key
      rw [hentries, entries_leaf hnode, set_below_path, take_commonPrefixLen, endValue, ← hkey,
        ← hpath]
      exact splitLeaf_eq_iff _ value old drop_commonPrefixLen_ne hboth
  | extension path child =>
    unfold split at hsplit
    dsimp only at hsplit
    split at hsplit
    next => cases hsplit
    next hleaves =>
      have hchild := closed_edge hclosed hnode rfl
      have hentries := entries_splitExtension hcodec hinj hchild key value (codec.toNibbles path)
        (commonPrefixLen key (codec.toNibbles path))
      rw [Option.some.inj hsplit] at hentries
      -- the key leaves the extension before its end
      have hgoesOn :
          (codec.toNibbles path).drop (commonPrefixLen key (codec.toNibbles path)) ≠ [] := by
        intro hends
        have hlength := List.drop_eq_nil_iff.mp hends
        exact hleaves (Nat.le_antisymm (commonPrefixLen_le_right ..) hlength)
      rw [hentries, entries_extension hnode, set_below_path, endValue]
      exact iff_of_true
        (congrArg _ (splitExtension_eq value _ drop_commonPrefixLen_ne hgoesOn)) trivial

end Main

/-! ## A sample split -/

/-- `from_nibbles` as it is, and a `to_nibbles` that drops the padding again. -/
def padded : PathCodec where
  fromNibbles := NibblePath.fromNibbles
  toNibbles path :=
    if path.offset = 1 then (bytesToNibbles path.data).dropLast else bytesToNibbles path.data

theorem roundTrips_padded : padded.RoundTrips := by
  intro nibbles
  unfold padded NibblePath.fromNibbles
  dsimp only
  rw [NibblePath.bytesToNibbles_packChunks]
  split
  next hodd =>
    rw [hodd]
    exact List.dropLast_concat
  next heven =>
    rw [(Nat.mod_two_eq_zero_or_one nibbles.length).resolve_right heven]
    exact List.append_nil _

local instance sixteenNibbles : NeZero 16 := ⟨by decide⟩

/-- A leaf with the path 1, 2. -/
def sampleLeaf : Node FreeHash := .leaf (padded.fromNibbles [1, 2]) [7]

def sampleNodes : Nodes FreeHash := (createNode FreeHash.mk (fun _ => none) sampleLeaf).1

theorem closed_sampleNodes : Closed FreeHash.mk Node.Edge sampleNodes (.mk sampleLeaf) :=
  closed_createNode FreeHash.mk_injective fun _ hy => hy.elim

/-- The key 1, 2, 3 goes on where the leaf ends. -/
theorem split_sets_iff_longer :
    padded.entries
        (padded.splitAndInsert FreeHash.mk sampleNodes [1, 2, 3] [9] [1, 2] (some [7]) 2).1
        (padded.splitAndInsert FreeHash.mk sampleNodes [1, 2, 3] [9] [1, 2] (some [7]) 2).2
      = set [1, 2, 3] [9] (padded.entries sampleNodes (.mk sampleLeaf)) :=
  (split_sets_iff roundTrips_padded FreeHash.mk_injective (createNode_eq _ sampleLeaf)
    closed_sampleNodes rfl).mpr (Or.inr (by decide))

/-- The keys 1, 2 and 1, 3: afterwards the key 1 has the old value. -/
theorem split_adds_key : ¬ ∀ (H : Type) [DecidableEq H] (codec : PathCodec) (hashNode : Node H → H)
    (nodes nodes' : Nodes H) (hash hash' : H) (node : Node H) (key : List Nibble) (value : Value),
    codec.RoundTrips → Function.Injective hashNode → nodes hash = some node →
      Closed hashNode Node.Edge nodes hash →
      codec.split hashNode nodes key value node = some (nodes', hash') →
      codec.entries nodes' hash' = set key value (codec.entries nodes hash) := by
  intro hgeneral
  have hold : padded.entries sampleNodes (.mk sampleLeaf)
      = below (padded.toNibbles (padded.fromNibbles [1, 2])) (atEnd [7]) :=
    entries_leaf (createNode_eq _ sampleLeaf)
  have heq := hgeneral FreeHash padded FreeHash.mk sampleNodes
    (padded.splitAndInsert FreeHash.mk sampleNodes [1, 3] [9] [1, 2] (some [7]) 1).1
    (.mk sampleLeaf)
    (padded.splitAndInsert FreeHash.mk sampleNodes [1, 3] [9] [1, 2] (some [7]) 1).2
    sampleLeaf [1, 3] [9] roundTrips_padded FreeHash.mk_injective (createNode_eq _ sampleLeaf)
    closed_sampleNodes rfl
  have hnew : padded.entries
      (padded.splitAndInsert FreeHash.mk sampleNodes [1, 3] [9] [1, 2] (some [7]) 1).1
      (padded.splitAndInsert FreeHash.mk sampleNodes [1, 3] [9] [1, 2] (some [7]) 1).2 [1] [7] :=
    ⟨2, by decide +kernel⟩
  have hset := (iff_of_eq (congrFun₂ heq [1] [7])).mp hnew
  rw [hold, roundTrips_padded, set_iff, below_atEnd] at hset
  exact absurd hset (by decide)

end PathCodec

end InterBit.Storage
