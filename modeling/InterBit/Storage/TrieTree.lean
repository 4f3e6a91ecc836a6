import Mathlib.Algebra.BigOperators.Fin
import Mathlib.Algebra.Order.BigOperators.Group.Finset
import InterBit.Storage.MerkleTrie

/-!
# The tree behind a root hash

`Trie` is the tree that a root hash stands for, with the hashes resolved:
`digest` gives back the hash, `node` the entry filed under it, and `Stored`
says that a node map holds the whole tree. On such trees the operations of
`MerklePatriciaTrie` have a direct meaning, `Trie.lookup`, `Trie.insert` and
`Trie.delete`, written after the source functions but without a node map. That
the source's recursion over the map computes them is `TrieRefine`.

The second half is what a proof about the map needs to know of the trees
alone: subtrees (`Sub`), their size, the shape invariant `Shape` (an extension
leads to a branch) that bounds the depth of a walk, and that deletion never
makes a tree larger.
-/

namespace InterBit.Storage

open InterBit.Lib
open NibblePath (fromNibbles)

/-- A trie with its hashes resolved. -/
inductive Trie where
  | leaf (path : NibblePath) (value : Value)
  | extension (path : NibblePath) (child : Trie)
  | branch (children : Fin 16 → Option Trie) (value : Option Value)

namespace Trie

/-- Induction over a trie: the children of a branch are the present ones. -/
@[elab_as_elim, induction_eliminator]
theorem induct {P : Trie → Prop} (leaf : ∀ p v, P (.leaf p v))
    (extension : ∀ p c, P c → P (.extension p c))
    (branch : ∀ cs v, (∀ i c, cs i = some c → P c) → P (.branch cs v)) (t : Trie) : P t :=
  @Trie.rec P (fun o => ∀ c, o = some c → P c)
    leaf extension branch (fun _ h => by cases h) (fun _ ih _ h => Option.some.inj h ▸ ih) t

section Digest

variable {H : Type} (hashNode : Node H → H)

mutual
/-- The hash of a trie's root node. -/
def digest : Trie → H
  | .leaf p v => hashNode (.leaf p v)
  | .extension p c => hashNode (.extension p (digest c))
  | .branch cs v => hashNode (.branch (fun i => digestOpt (cs i)) v)
termination_by structural t => t

/-- `digest` on a child slot. -/
def digestOpt : Option Trie → Option H
  | none => none
  | some t => some (digest t)
termination_by structural o => o
end

@[simp] theorem digestOpt_none : digestOpt hashNode none = none := rfl

@[simp] theorem digestOpt_some (t : Trie) : digestOpt hashNode (some t) = some (digest hashNode t) :=
  rfl

/-- The node filed under `digest t`. -/
def node : Trie → Node H
  | .leaf p v => .leaf p v
  | .extension p c => .extension p (digest hashNode c)
  | .branch cs v => .branch (fun i => digestOpt hashNode (cs i)) v

theorem digest_eq (t : Trie) : digest hashNode t = hashNode (node hashNode t) := by
  cases t <;> rfl

/-- Writing a child slot commutes with taking digests. -/
theorem digestOpt_update (cs : Fin 16 → Option Trie) (i : Fin 16) (o : Option Trie) :
    (fun j => digestOpt hashNode (Function.update cs i o j))
      = Function.update (fun j => digestOpt hashNode (cs j)) i (digestOpt hashNode o) := by
  funext j
  by_cases hj : j = i
  · subst hj
    simp
  · simp [hj]

/-- A root hash determines the trie. -/
theorem digest_injective (hinj : Function.Injective hashNode) :
    Function.Injective (digest hashNode) := by
  intro t
  induction t with
  | leaf p v =>
    intro s h
    cases s with
    | leaf q w =>
      have hn := hinj h
      injection hn with hp hv
      rw [hp, hv]
    -- nodes of different kinds have different digests
    | extension q d => exact nomatch hinj h
    | branch ds w => exact nomatch hinj h
  | extension p c ih =>
    intro s h
    cases s with
    | leaf q w => exact nomatch hinj h
    | extension q d =>
      have hn := hinj h
      injection hn with hp hc
      rw [hp, ih hc]
    | branch ds w => exact nomatch hinj h
  | branch cs v ih =>
    intro s h
    cases s with
    | leaf q w => exact nomatch hinj h
    | extension q d => exact nomatch hinj h
    | branch ds w =>
      have hn := hinj h
      injection hn with hcs hv
      -- the digests of the slots agree, slot by slot
      have hslot : cs = ds := by
        funext i
        have hi := congrFun hcs i
        cases hc : cs i with
        | none =>
          cases hd : ds i with
          | none => rfl
          | some d => simp [hc, hd] at hi
        | some c =>
          cases hd : ds i with
          | none => simp [hc, hd] at hi
          | some d =>
            simp only [hc, hd, digestOpt_some, Option.some.injEq] at hi
            rw [ih i c hc hi]
      rw [hslot, hv]

end Digest

/-! ## The operations, read on trees -/

mutual
/-- What `get_recursive` finds. -/
def lookup : Trie → List Nibble → Option Value
  | .leaf p v, key => if key = p.toNibbles then some v else none
  | .extension p c, key =>
    if p.toNibbles <+: key then lookup c (key.drop p.toNibbles.length) else none
  | .branch _ v, [] => v
  | .branch cs _, i :: rest => lookupOpt (cs i) rest
termination_by structural t => t

/-- `lookup` in a child slot. -/
def lookupOpt : Option Trie → List Nibble → Option Value
  | none, _ => none
  | some t, key => lookup t key
termination_by structural o => o
end

/-- Tree of `placeLeaf`. -/
def placeLeaf (children : Fin 16 → Option Trie) (key : List Nibble) (commonLen : Nat)
    (value : Value) : Fin 16 → Option Trie :=
  match key.drop commonLen with
  | [] => children
  | i :: rest => Function.update children i (some (.leaf (fromNibbles rest) value))

/-- Tree of `createBranch`. -/
def createBranch (children : Fin 16 → Option Trie) (value : Option Value)
    (common : List Nibble) : Trie :=
  if common.length > 0 then .extension (fromNibbles common) (.branch children value)
  else .branch children value

/-- The branch slots filled by `split_and_insert` on a leaf. -/
def leafSplitChildren (key : List Nibble) (value : Value) (existingKey : List Nibble)
    (existingValue : Value) (commonLen : Nat) : Fin 16 → Option Trie :=
  placeLeaf (placeLeaf (fun _ => none) key commonLen value) existingKey commonLen existingValue

/-- Tree of `split_and_insert`. -/
def splitLeaf (key : List Nibble) (value : Value) (existingKey : List Nibble)
    (existingValue : Value) (commonLen : Nat) : Trie :=
  createBranch (leafSplitChildren key value existingKey existingValue commonLen)
    (if key.length = commonLen then some value else some existingValue) (key.take commonLen)

/-- Tree of `placeExtension`. -/
def placeExtension (children : Fin 16 → Option Trie) (extNibbles : List Nibble) (commonLen : Nat)
    (child : Trie) : Fin 16 → Option Trie :=
  match extNibbles.drop commonLen with
  | [] => children
  | [i] => Function.update children i (some child)
  | i :: rest => Function.update children i (some (.extension (fromNibbles rest) child))

/-- The branch slots filled by `split_extension`. -/
def extSplitChildren (key : List Nibble) (value : Value) (extNibbles : List Nibble)
    (child : Trie) (commonLen : Nat) : Fin 16 → Option Trie :=
  placeExtension (placeLeaf (fun _ => none) key commonLen value) extNibbles commonLen child

/-- Tree of `split_extension`. -/
def splitExt (key : List Nibble) (value : Value) (extNibbles : List Nibble) (child : Trie)
    (commonLen : Nat) : Trie :=
  createBranch (extSplitChildren key value extNibbles child commonLen)
    (if key.length = commonLen then some value else none) (extNibbles.take commonLen)

mutual
/-- Tree of `insert_recursive`. -/
def insert : Trie → List Nibble → Value → Trie
  | .leaf p w, key, value =>
    let commonLen := commonPrefixLen key p.toNibbles
    if commonLen = p.toNibbles.length ∧ commonLen = key.length then .leaf p value
    else splitLeaf key value p.toNibbles w commonLen
  | .extension p c, key, value =>
    let commonLen := commonPrefixLen key p.toNibbles
    if commonLen = p.toNibbles.length then .extension p (insert c (key.drop commonLen) value)
    else splitExt key value p.toNibbles c commonLen
  | .branch cs _, [], value => .branch cs (some value)
  | .branch cs w, i :: rest, value =>
    .branch (Function.update cs i (some (insertOpt (cs i) rest value))) w
termination_by structural t => t

/-- `insert` in a child slot. -/
def insertOpt : Option Trie → List Nibble → Value → Trie
  | none, key, value => .leaf (fromNibbles key) value
  | some t, key, value => insert t key value
termination_by structural o => o
end

/-- Tree of `try_merge_extension`. -/
def mergeExtension (path : NibblePath) : Trie → Trie
  | .extension childPath grandchild => .extension (path.concat childPath) grandchild
  | .leaf leafPath value => .leaf (path.concat leafPath) value
  | .branch cs v => .extension path (.branch cs v)

/-- Tree of `simplify_branch` when one child and no value are left. -/
def mergeChild (children : Fin 16 → Option Trie) (index : Fin 16) : Trie → Trie
  | .leaf path value => .leaf (fromNibbles (index :: path.toNibbles)) value
  | .extension path child => .extension (fromNibbles (index :: path.toNibbles)) child
  | .branch _ _ => .branch children none

/-- Tree of `simplify_branch`. -/
def simplify (children : Fin 16 → Option Trie) (value : Option Value) : Option Trie :=
  match nonEmptyChildren children, value with
  | [], none => none
  | [], some v => some (.leaf (fromNibbles []) v)
  | [(index, child)], none => some (mergeChild children index child)
  | _, _ => some (.branch children value)

mutual
/-- Tree of `delete_recursive`. -/
def delete : Trie → List Nibble → Option Trie
  | .leaf p v, key => if key = p.toNibbles then none else some (.leaf p v)
  | .extension p c, key =>
    if p.toNibbles <+: key then
      (delete c (key.drop p.toNibbles.length)).map (mergeExtension p)
    else some (.extension p c)
  | .branch cs _, [] => simplify cs none
  | .branch cs v, i :: rest =>
    if (cs i).isSome then simplify (Function.update cs i (deleteOpt (cs i) rest)) v
    else some (.branch cs v)
termination_by structural t => t

/-- `delete` in a child slot. -/
def deleteOpt : Option Trie → List Nibble → Option Trie
  | none, _ => none
  | some t, key => delete t key
termination_by structural o => o
end

@[simp] theorem lookupOpt_none (key : List Nibble) : lookupOpt none key = none := rfl

@[simp] theorem lookupOpt_some (t : Trie) (key : List Nibble) :
    lookupOpt (some t) key = lookup t key := rfl

@[simp] theorem insertOpt_none (key : List Nibble) (value : Value) :
    insertOpt none key value = .leaf (fromNibbles key) value := rfl

@[simp] theorem insertOpt_some (t : Trie) (key : List Nibble) (value : Value) :
    insertOpt (some t) key value = insert t key value := rfl

@[simp] theorem deleteOpt_none (key : List Nibble) : deleteOpt none key = none := rfl

@[simp] theorem deleteOpt_some (t : Trie) (key : List Nibble) :
    deleteOpt (some t) key = delete t key := rfl

/-! ## Subtrees and size -/

/-- `s` is a subtree of `t`, or `t` itself. -/
inductive Sub (s : Trie) : Trie → Prop
  | refl : Sub s s
  | extension {p : NibblePath} {c : Trie} : Sub s c → Sub s (.extension p c)
  | branch {cs : Fin 16 → Option Trie} {v : Option Value} {i : Fin 16} {c : Trie} :
      cs i = some c → Sub s c → Sub s (.branch cs v)

variable {p : NibblePath} {cs : Fin 16 → Option Trie} {v : Option Value} {c : Trie} {i : Fin 16}
  {t : Trie} {key : List Nibble}

theorem sub_leaf_iff {s : Trie} {v : Value} : Sub s (.leaf p v) ↔ s = .leaf p v := by
  constructor
  · intro h
    cases h
    rfl
  · rintro rfl
    exact .refl

theorem sub_extension_iff {s c : Trie} : Sub s (.extension p c) ↔ s = .extension p c ∨ Sub s c := by
  constructor
  · intro h
    cases h with
    | refl => exact Or.inl rfl
    | extension h => exact Or.inr h
  · rintro (rfl | h)
    · exact .refl
    · exact .extension h

theorem sub_branch_iff {s : Trie} :
    Sub s (.branch cs v) ↔ s = .branch cs v ∨ ∃ i c, cs i = some c ∧ Sub s c := by
  constructor
  · intro h
    cases h with
    | refl => exact Or.inl rfl
    | branch hc h => exact Or.inr ⟨_, _, hc, h⟩
  · rintro (rfl | ⟨i, c, hc, h⟩)
    · exact .refl
    · exact .branch hc h

/-- A part of a part is a part. -/
theorem Sub.trans {r s t : Trie} (hrs : Sub r s) (hst : Sub s t) : Sub r t := by
  induction hst with
  | refl => exact hrs
  | extension _ ih => exact .extension ih
  | branch hc _ ih => exact .branch hc ih

mutual
/-- The number of nodes. -/
def size : Trie → Nat
  | .leaf _ _ => 1
  | .extension _ c => 1 + size c
  | .branch cs _ => 1 + ∑ i, sizeOpt (cs i)
termination_by structural t => t

/-- `size` of a child slot. -/
def sizeOpt : Option Trie → Nat
  | none => 0
  | some t => size t
termination_by structural o => o
end

theorem size_pos (t : Trie) : 0 < size t := by
  cases t <;> simp only [size] <;> omega

theorem size_child_lt (hc : cs i = some c) : size c < size (.branch cs v) := by
  have hle : sizeOpt (cs i) ≤ ∑ j, sizeOpt (cs j) :=
    Finset.single_le_sum (f := fun j => sizeOpt (cs j)) (fun _ _ => Nat.zero_le _)
      (Finset.mem_univ i)
  rw [hc] at hle
  simp only [sizeOpt] at hle
  simp only [size]
  omega

/-- A part has no more nodes. -/
theorem Sub.size_le {s t : Trie} (h : Sub s t) : size s ≤ size t := by
  induction h with
  | refl => exact Nat.le_refl _
  | extension _ ih =>
    simp only [size]
    omega
  | branch hc _ ih => exact Nat.le_trans ih (Nat.le_of_lt (size_child_lt hc))

/-- A larger tree is no subtree of a smaller one. -/
theorem not_sub_of_size_lt {s t : Trie} (h : size t < size s) : ¬ Sub s t :=
  fun hs => absurd hs.size_le (by omega)

theorem size_branch_update_le {v w : Option Value} {o : Option Trie}
    (ho : sizeOpt o ≤ sizeOpt (cs i)) :
    size (.branch (Function.update cs i o) w) ≤ size (.branch cs v) := by
  simp only [size]
  refine Nat.add_le_add_left (Finset.sum_le_sum fun j _ => ?_) 1
  by_cases hj : j = i
  · subst hj
    simpa using ho
  · simp [hj]

/-! ## One child left -/

theorem mem_nonEmptyChildren {α : Type} {cs : Fin 16 → Option α} {c : α} :
    (i, c) ∈ nonEmptyChildren cs ↔ cs i = some c := by
  simp only [nonEmptyChildren, List.mem_filterMap, List.mem_finRange, true_and, Option.map_eq_some_iff]
  constructor
  · rintro ⟨j, d, hd, he⟩
    obtain ⟨rfl, rfl⟩ := Prod.mk.injEq .. ▸ he
    exact hd
  · intro h
    exact ⟨i, c, h, rfl⟩

theorem nonEmptyChildren_map {α β : Type} (f : α → β) (cs : Fin 16 → Option α) :
    nonEmptyChildren (fun i => (cs i).map f)
      = (nonEmptyChildren cs).map fun x => (x.1, f x.2) := by
  simp only [nonEmptyChildren, List.map_filterMap, Option.map_map]
  rfl

theorem nonEmptyChildren_digestOpt {H : Type} (hashNode : Node H → H)
    (cs : Fin 16 → Option Trie) :
    nonEmptyChildren (fun i => digestOpt hashNode (cs i))
      = (nonEmptyChildren cs).map fun x => (x.1, x.2.digest hashNode) := by
  rw [← nonEmptyChildren_map]
  congr 1
  funext i
  cases cs i <;> rfl

/-- The children are those of the list. -/
theorem nonEmptyChildren_singleton (h : nonEmptyChildren cs = [(i, c)]) : cs i = some c := by
  rw [← mem_nonEmptyChildren, h]
  exact List.mem_singleton.mpr rfl

/-- What `simplify` can give. -/
theorem simplify_eq_some (h : simplify cs v = some t) :
    (∃ w, t = .leaf (fromNibbles []) w) ∨
    (∃ i c, cs i = some c ∧ v = none ∧ t = mergeChild cs i c) ∨
    t = .branch cs v := by
  match hne : nonEmptyChildren cs, v with
  | [], none => simp [simplify, hne] at h
  | [], some w =>
    simp only [simplify, hne, Option.some.injEq] at h
    exact Or.inl ⟨w, h.symm⟩
  | [(i, c)], none =>
    simp only [simplify, hne, Option.some.injEq] at h
    exact Or.inr (Or.inl ⟨i, c, nonEmptyChildren_singleton hne, rfl, h.symm⟩)
  | [(i, c)], some w =>
    simp only [simplify, hne, Option.some.injEq] at h
    exact Or.inr (Or.inr h.symm)
  | _ :: _ :: _, v =>
    simp only [simplify, hne, Option.some.injEq] at h
    exact Or.inr (Or.inr h.symm)

/-! ## Shape -/

/-- An extension leads to a branch. -/
def IsBranch : Trie → Prop
  | .branch _ _ => True
  | _ => False

/-- Every extension in the trie leads to a branch. -/
def Shape (t : Trie) : Prop := ∀ p c, Sub (.extension p c) t → IsBranch c

theorem Shape.sub {s t : Trie} (h : Shape t) (hs : Sub s t) : Shape s :=
  fun p c hc => h p c (hc.trans hs)

theorem shape_leaf (p : NibblePath) (v : Value) : Shape (.leaf p v) := by
  intro q c h
  cases sub_leaf_iff.mp h

theorem shape_extension (hb : IsBranch c) (hc : Shape c) : Shape (.extension p c) := by
  intro q d h
  rcases sub_extension_iff.mp h with he | h
  · injection he with _ hd
    exact hd ▸ hb
  · exact hc q d h

theorem shape_branch (h : ∀ i c, cs i = some c → Shape c) : Shape (.branch cs v) := by
  intro q d hs
  rcases sub_branch_iff.mp hs with he | ⟨i, c, hc, hs⟩
  · cases he
  · exact h i c hc q d hs

theorem Shape.child (h : Shape (.branch cs v)) (hc : cs i = some c) : Shape c :=
  h.sub (.branch hc .refl)

theorem Shape.ext_child (h : Shape (.extension p c)) : IsBranch c ∧ Shape c :=
  ⟨h p c .refl, h.sub (.extension .refl)⟩

theorem shape_createBranch {common : List Nibble} (h : ∀ i c, cs i = some c → Shape c) :
    Shape (createBranch cs v common) := by
  unfold createBranch
  split
  next => exact shape_extension trivial (shape_branch h)
  next => exact shape_branch h

/-- What a child slot holds after one write. -/
theorem update_eq_some {i j : Fin 16} {o : Option Trie} (h : Function.update cs i o j = some c) :
    (j = i ∧ o = some c) ∨ (j ≠ i ∧ cs j = some c) := by
  by_cases hj : j = i
  · subst hj
    rw [Function.update_self] at h
    exact Or.inl ⟨rfl, h⟩
  · rw [Function.update_of_ne hj] at h
    exact Or.inr ⟨hj, h⟩

/-- A slot after `placeLeaf` holds the new leaf or what it held before. -/
theorem placeLeaf_eq_some {n : Nat} {v : Value} {j : Fin 16} (h : placeLeaf cs key n v j = some c) :
    (∃ rest, c = .leaf (fromNibbles rest) v) ∨ cs j = some c := by
  cases hd : key.drop n with
  | nil =>
    rw [placeLeaf, hd] at h
    exact Or.inr h
  | cons i rest =>
    rw [placeLeaf, hd] at h
    rcases update_eq_some h with ⟨-, he⟩ | ⟨-, he⟩
    · exact Or.inl ⟨rest, (Option.some.inj he).symm⟩
    · exact Or.inr he

/-- A slot after `placeExtension` holds the rest of the extension or what it
held before. -/
theorem placeExtension_eq_some {extNibbles : List Nibble} {n : Nat} {child : Trie} {j : Fin 16}
    (h : placeExtension cs extNibbles n child j = some c) :
    c = child ∨ (∃ rest, c = .extension (fromNibbles rest) child) ∨ cs j = some c := by
  match hd : extNibbles.drop n with
  | [] =>
    rw [placeExtension, hd] at h
    exact Or.inr (Or.inr h)
  | [i] =>
    rw [placeExtension, hd] at h
    rcases update_eq_some h with ⟨-, he⟩ | ⟨-, he⟩
    · exact Or.inl (Option.some.inj he).symm
    · exact Or.inr (Or.inr he)
  | i :: a :: rest =>
    rw [placeExtension, hd] at h
    rcases update_eq_some h with ⟨-, he⟩ | ⟨-, he⟩
    · exact Or.inr (Or.inl ⟨a :: rest, (Option.some.inj he).symm⟩)
    · exact Or.inr (Or.inr he)

theorem leafSplitChildren_eq_some {key existingKey : List Nibble} {value existingValue : Value}
    {n : Nat} {j : Fin 16}
    (h : leafSplitChildren key value existingKey existingValue n j = some c) :
    ∃ p v, c = .leaf p v := by
  rcases placeLeaf_eq_some h with ⟨rest, rfl⟩ | h
  · exact ⟨_, _, rfl⟩
  · rcases placeLeaf_eq_some h with ⟨rest, rfl⟩ | h
    · exact ⟨_, _, rfl⟩
    · cases h

theorem extSplitChildren_eq_some {key extNibbles : List Nibble} {value : Value} {child : Trie}
    {n : Nat} {j : Fin 16} (h : extSplitChildren key value extNibbles child n j = some c) :
    (∃ p v, c = .leaf p v) ∨ c = child ∨ ∃ rest, c = .extension (fromNibbles rest) child := by
  rcases placeExtension_eq_some h with he | he | h
  · exact Or.inr (Or.inl he)
  · exact Or.inr (Or.inr he)
  · rcases placeLeaf_eq_some h with ⟨rest, rfl⟩ | h
    · exact Or.inl ⟨_, _, rfl⟩
    · cases h

theorem isBranch_insert (hb : IsBranch t) (key : List Nibble) (v : Value) :
    IsBranch (insert t key v) := by
  cases t with
  | leaf p w => exact hb.elim
  | extension p c => exact hb.elim
  | branch cs w => cases key <;> exact trivial

/-- Insertion keeps the shape. -/
theorem shape_insert (h : Shape t) (key : List Nibble) (v : Value) : Shape (insert t key v) := by
  induction t generalizing key with
  | leaf p w =>
    simp only [insert]
    split
    next => exact shape_leaf p v
    next =>
      -- the branch of the split has leaves only
      refine shape_createBranch fun i c hc => ?_
      obtain ⟨q, u, rfl⟩ := leafSplitChildren_eq_some hc
      exact shape_leaf q u
  | extension p c ih =>
    obtain ⟨hb, hc⟩ := h.ext_child
    simp only [insert]
    split
    next => exact shape_extension (isBranch_insert hb _ _) (ih hc _)
    next =>
      refine shape_createBranch fun i d hd => ?_
      rcases extSplitChildren_eq_some hd with ⟨q, u, rfl⟩ | rfl | ⟨rest, rfl⟩
      · exact shape_leaf q u
      · exact hc
      · exact shape_extension hb hc
  | branch cs w ih =>
    cases key with
    | nil => exact shape_branch fun i c hc => h.child hc
    | cons i rest =>
      refine shape_branch fun j c hc => ?_
      -- the slot that was written, or one of the others
      rcases update_eq_some hc with ⟨-, he⟩ | ⟨-, hc⟩
      · cases hi : cs i with
        | none =>
          rw [hi, insertOpt_none] at he
          exact Option.some.inj he ▸ shape_leaf _ v
        | some d =>
          rw [hi, insertOpt_some] at he
          exact Option.some.inj he ▸ ih i d hi (h.child hi) rest
      · exact h.child hc

theorem shape_mergeExtension (p : NibblePath) (h : Shape c) : Shape (mergeExtension p c) := by
  cases c with
  | leaf q v => exact shape_leaf _ v
  | extension q d => exact shape_extension h.ext_child.1 h.ext_child.2
  | branch cs v => exact shape_extension trivial h

theorem shape_simplify (h : ∀ i c, cs i = some c → Shape c) (ht : simplify cs v = some t) :
    Shape t := by
  rcases simplify_eq_some ht with ⟨w, rfl⟩ | ⟨i, c, hc, -, rfl⟩ | rfl
  · exact shape_leaf _ w
  · have hsh := h i c hc
    cases c with
    | leaf q w => exact shape_leaf _ w
    | extension q d => exact shape_extension hsh.ext_child.1 hsh.ext_child.2
    | branch ds w => exact shape_branch h
  · exact shape_branch h

/-- Deletion keeps the shape. -/
theorem shape_delete {t t' : Trie} (h : Shape t) (ht : delete t key = some t') : Shape t' := by
  induction t generalizing key t' with
  | leaf p v =>
    simp only [delete] at ht
    split at ht
    next => cases ht
    next => exact Option.some.inj ht ▸ h
  | extension p c ih =>
    simp only [delete] at ht
    split at ht
    next =>
      obtain ⟨c', hc', rfl⟩ := Option.map_eq_some_iff.mp ht
      -- The extension merges with whatever its child has become.
      exact shape_mergeExtension p (ih h.ext_child.2 hc')
    next => exact Option.some.inj ht ▸ h
  | branch cs v ih =>
    cases key with
    | nil => exact shape_simplify (fun i c hc => h.child hc) ht
    | cons i rest =>
      simp only [delete] at ht
      split at ht
      next =>
        refine shape_simplify (fun j c hc => ?_) ht
        -- Below the key it is what is left of the child; beside it the child itself.
        rcases update_eq_some hc with ⟨-, he⟩ | ⟨-, hc⟩
        · cases hi : cs i with
          | none =>
            rw [hi] at he
            cases he
          | some d =>
            rw [hi, deleteOpt_some] at he
            exact ih i d hi (h.child hi) he
        · exact h.child hc
      next => exact Option.some.inj ht ▸ h

/-! ## Deletion never grows a trie -/

theorem size_mergeExtension_le (p : NibblePath) (c : Trie) :
    size (mergeExtension p c) ≤ size (.extension p c) := by
  cases c <;> simp only [mergeExtension, size] <;> omega

/-- To simplify a branch does not add nodes. -/
theorem size_simplify_le (ht : simplify cs v = some t) : size t ≤ size (.branch cs v) := by
  rcases simplify_eq_some ht with ⟨w, rfl⟩ | ⟨i, c, hc, rfl, rfl⟩ | rfl
  · simp only [size]
    omega
  · have hlt := size_child_lt (v := none) hc
    cases c with
    | leaf q w =>
      simp only [mergeChild, size] at *
      omega
    | extension q d =>
      simp only [mergeChild, size] at *
      omega
    | branch ds w => exact Nat.le_refl _
  · exact Nat.le_refl _

/-- A delete does not make the trie larger. -/
theorem size_delete_le {t t' : Trie} (ht : delete t key = some t') : size t' ≤ size t := by
  induction t generalizing key t' with
  | leaf p v =>
    simp only [delete] at ht
    split at ht
    next => cases ht
    next => exact Option.some.inj ht ▸ Nat.le_refl _
  | extension p c ih =>
    simp only [delete] at ht
    split at ht
    next =>
      obtain ⟨c', hc', rfl⟩ := Option.map_eq_some_iff.mp ht
      -- The child gets no larger, and merging its path adds nothing.
      have h1 := size_mergeExtension_le p c'
      have h2 := ih hc'
      simp only [size] at *
      omega
    next => exact Option.some.inj ht ▸ Nat.le_refl _
  | branch cs v ih =>
    cases key with
    | nil =>
      have hle := size_simplify_le ht
      simpa only [size] using hle
    | cons i rest =>
      simp only [delete] at ht
      split at ht
      next =>
        -- One child is replaced by what is left of it.
        refine Nat.le_trans (size_simplify_le ht) (size_branch_update_le ?_)
        cases hi : cs i with
        | none => exact Nat.le_refl _
        | some d =>
          rw [deleteOpt_some]
          cases hd : delete d rest with
          | none => exact Nat.zero_le _
          | some d' => exact ih i d hi hd
      next => exact Option.some.inj ht ▸ Nat.le_refl _

end Trie

end InterBit.Storage
