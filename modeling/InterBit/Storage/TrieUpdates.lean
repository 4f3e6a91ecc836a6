import InterBit.Storage.TrieTree

/-!
# What an update takes out of the node map

An update of the trie calls `nodes.remove` on the nodes it replaces. A node
that occurs at two places of the trie has one entry for both, so this file
describes, on trees, when a removal is harmless.

`removedByInsert` and `removedByDelete` list the nodes an update takes out.
`Unshared` asks that, at each branch on the key's path, nothing taken out below
the child that is followed also lies below another child. An insert can lose a
node in one more way: the branch or extension that a split builds (`built`) may
be identical to a node above it, and that node is removed afterwards.

`NotRebuilt` is the second condition as the refinement proof uses it: no node
on the path occurs in the *whole* subtrie that the insert puts below it.
`notRebuilt_of_built` shows that it is enough to look at what the split builds.
If a node on the path did occur, it would be the image of some lower path
node; comparing the two, child by child down the key, moves the coincidence
down to the split (`not_sub_insert`).
-/

namespace InterBit.Storage

open NibblePath (fromNibbles)

/-- The common prefix is the whole second list exactly when that is a prefix. -/
theorem commonPrefixLen_eq_length_iff : ∀ key p : List Nibble,
    commonPrefixLen key p = p.length ↔ p <+: key
  | [], [] => by simp [commonPrefixLen]
  | [], _ :: _ => by simp [commonPrefixLen]
  | _ :: _, [] => by simp [commonPrefixLen]
  | a :: as, b :: bs => by
    simp only [commonPrefixLen, List.length_cons, List.cons_prefix_cons]
    by_cases h : a = b
    · subst h
      rw [if_pos rfl, ← commonPrefixLen_eq_length_iff as bs]
      simp
    · rw [if_neg h]
      simp [Ne.symm h]

theorem commonPrefixLen_le_right : ∀ key p : List Nibble, commonPrefixLen key p ≤ p.length
  | [], _ => Nat.zero_le _
  | _ :: _, [] => Nat.zero_le _
  | a :: as, b :: bs => by
    have ih := commonPrefixLen_le_right as bs
    simp only [commonPrefixLen, List.length_cons]
    split <;> omega

theorem commonPrefixLen_le_left : ∀ key p : List Nibble, commonPrefixLen key p ≤ key.length
  | [], _ => Nat.zero_le _
  | _ :: _, [] => Nat.zero_le _
  | a :: as, b :: bs => by
    have ih := commonPrefixLen_le_left as bs
    simp only [commonPrefixLen, List.length_cons]
    split <;> omega

namespace Trie

/-! ## What an update takes out of the map -/

mutual
/-- Nodes that `insert_recursive` removes: those on the key's path, except one
that is split. -/
def removedByInsert : Trie → List Nibble → List Trie
  | .leaf p v, key =>
    let commonLen := commonPrefixLen key p.toNibbles
    if commonLen = p.toNibbles.length ∧ commonLen = key.length then [.leaf p v] else []
  | .extension p c, key =>
    let commonLen := commonPrefixLen key p.toNibbles
    if commonLen = p.toNibbles.length then
      removedByInsert c (key.drop commonLen) ++ [.extension p c]
    else []
  | .branch cs w, [] => [.branch cs w]
  | .branch cs w, i :: rest => removedByInsertOpt (cs i) rest ++ [.branch cs w]
termination_by structural t => t

/-- `removedByInsert` in a child slot. -/
def removedByInsertOpt : Option Trie → List Nibble → List Trie
  | none, _ => []
  | some t, key => removedByInsert t key
termination_by structural o => o
end

/-- The branch of a split, and the extension over it. -/
def builtBranch (children : Fin 16 → Option Trie) (value : Option Value) (common : List Nibble) :
    List Trie :=
  [.branch children value, createBranch children value common]

mutual
/-- What the split at the end of the key's path builds; nothing if there is
no split. -/
def built : Trie → List Nibble → Value → List Trie
  | .leaf p w, key, value =>
    let commonLen := commonPrefixLen key p.toNibbles
    if commonLen = p.toNibbles.length ∧ commonLen = key.length then []
    else builtBranch (leafSplitChildren key value p.toNibbles w commonLen)
      (if key.length = commonLen then some value else some w) (key.take commonLen)
  | .extension p c, key, value =>
    let commonLen := commonPrefixLen key p.toNibbles
    if commonLen = p.toNibbles.length then built c (key.drop commonLen) value
    else builtBranch (extSplitChildren key value p.toNibbles c commonLen)
      (if key.length = commonLen then some value else none) (p.toNibbles.take commonLen)
  | .branch _ _, [], _ => []
  | .branch cs _, i :: rest, value => builtOpt (cs i) rest value
termination_by structural t => t

/-- `built` in a child slot. -/
def builtOpt : Option Trie → List Nibble → Value → List Trie
  | none, _, _ => []
  | some t, key, value => built t key value
termination_by structural o => o
end

/-- A leaf or extension that is merged with the node above it. -/
def absorbed : Trie → List Trie
  | .leaf p v => [.leaf p v]
  | .extension p c => [.extension p c]
  | .branch _ _ => []

/-- What `simplify_branch` removes. -/
def absorbedChild (children : Fin 16 → Option Trie) (value : Option Value) : List Trie :=
  match nonEmptyChildren children, value with
  | [(_, child)], none => absorbed child
  | _, _ => []

mutual
/-- Nodes that `delete_recursive` removes: the leaf or branch it ends at, the
branches above, and each leaf or extension that a merge absorbs. -/
def removedByDelete : Trie → List Nibble → List Trie
  | .leaf p v, key => if key = p.toNibbles then [.leaf p v] else []
  | .extension p c, key =>
    if p.toNibbles <+: key then
      removedByDelete c (key.drop p.toNibbles.length) ++
        match delete c (key.drop p.toNibbles.length) with
        | none => [.extension p c]
        | some c' => absorbed c'
    else []
  | .branch cs v, [] => .branch cs v :: absorbedChild cs none
  | .branch cs v, i :: rest =>
    if (cs i).isSome then
      removedByDeleteOpt (cs i) rest ++
        .branch cs v :: absorbedChild (Function.update cs i (deleteOpt (cs i) rest)) v
    else []
termination_by structural t => t

/-- `removedByDelete` in a child slot. -/
def removedByDeleteOpt : Option Trie → List Nibble → List Trie
  | none, _ => []
  | some t, key => removedByDelete t key
termination_by structural o => o
end

mutual
/-- At each branch on the key's path, nothing that is removed below the
followed child lies below another child. -/
def Unshared (removed : Trie → List Nibble → List Trie) : Trie → List Nibble → Prop
  | .leaf _ _, _ => True
  | .extension p c, key =>
    p.toNibbles <+: key → Unshared removed c (key.drop p.toNibbles.length)
  | .branch _ _, [] => True
  | .branch cs _, i :: rest =>
    UnsharedOpt removed (cs i) rest ∧
      ∀ c, cs i = some c → ∀ r ∈ removed c rest, ∀ j s, j ≠ i → cs j = some s → ¬ Sub r s
termination_by structural t => t

/-- `Unshared` in a child slot. -/
def UnsharedOpt (removed : Trie → List Nibble → List Trie) : Option Trie → List Nibble → Prop
  | none, _ => True
  | some t, key => Unshared removed t key
termination_by structural o => o
end

mutual
/-- No node on the key's path occurs in what the insert puts below it. -/
def NotRebuilt : Trie → List Nibble → Value → Prop
  | .leaf _ _, _, _ => True
  | .extension p c, key, value =>
    commonPrefixLen key p.toNibbles = p.toNibbles.length →
      NotRebuilt c (key.drop p.toNibbles.length) value ∧
        ¬ Sub (.extension p c) (insert c (key.drop p.toNibbles.length) value)
  | .branch _ _, [], _ => True
  | .branch cs w, i :: rest, value =>
    NotRebuiltOpt (cs i) rest value ∧
      ∀ c, cs i = some c → ¬ Sub (.branch cs w) (insert c rest value)
termination_by structural t => t

/-- `NotRebuilt` in a child slot. -/
def NotRebuiltOpt : Option Trie → List Nibble → Value → Prop
  | none, _, _ => True
  | some t, key, value => NotRebuilt t key value
termination_by structural o => o
end

/-- Calls that a walk along `key` from the root of `t` needs. -/
def walkNeed (t : Trie) (key : List Nibble) : Nat :=
  2 * key.length + match t with | .extension _ _ => 2 | _ => 1

theorem walkNeed_le (t : Trie) (key : List Nibble) : walkNeed t key ≤ walkFuel key := by
  cases t <;> simp only [walkNeed, walkFuel] <;> omega

variable {t : Trie} {p : NibblePath} {cs : Fin 16 → Option Trie} {w : Option Value}
  {key rest : List Nibble} {v : Value} {b : List Trie} {kt kx : List Nibble}

theorem walkNeed_of_isBranch (h : IsBranch t) (key : List Nibble) :
    walkNeed t key = 2 * key.length + 1 := by
  cases t with
  | leaf p v => exact h.elim
  | extension p c => exact h.elim
  | branch cs v => rfl

/-- A walk needs at least one call. -/
theorem walkNeed_pos {key : List Nibble} {fuel : Nat} (h : walkNeed t key ≤ fuel) :
    ∃ f, fuel = f + 1 := by
  cases t <;> exact ⟨fuel - 1, by simp only [walkNeed] at h; omega⟩

/-- The call on the child of an extension has fuel enough left. -/
theorem walkNeed_ext_child {c d : Trie} {key : List Nibble} {fuel : Nat} (hb : IsBranch d)
    (h : walkNeed (.extension p c) key ≤ fuel + 1) :
    walkNeed d (key.drop p.toNibbles.length) ≤ fuel := by
  rw [walkNeed_of_isBranch hb, List.length_drop]
  simp only [walkNeed] at h
  omega

/-- The call on a child of a branch has fuel enough left. -/
theorem walkNeed_child {c : Trie} {i : Nibble} {rest : List Nibble} {fuel : Nat}
    (h : walkNeed (.branch cs w) (i :: rest) ≤ fuel + 1) :
    walkNeed c rest ≤ fuel := by
  refine Nat.le_trans (walkNeed_le c rest) ?_
  simp only [walkNeed, List.length_cons, walkFuel] at h ⊢
  omega

@[simp] theorem removedByInsertOpt_none (key : List Nibble) : removedByInsertOpt none key = [] :=
  rfl

@[simp] theorem removedByInsertOpt_some (t : Trie) (key : List Nibble) :
    removedByInsertOpt (some t) key = removedByInsert t key := rfl

@[simp] theorem builtOpt_none (key : List Nibble) (v : Value) : builtOpt none key v = [] := rfl

@[simp] theorem builtOpt_some (t : Trie) (key : List Nibble) (v : Value) :
    builtOpt (some t) key v = built t key v := rfl

@[simp] theorem notRebuiltOpt_some (t : Trie) (key : List Nibble) (v : Value) :
    NotRebuiltOpt (some t) key v = NotRebuilt t key v := rfl

@[simp] theorem removedByDeleteOpt_some (t : Trie) (key : List Nibble) :
    removedByDeleteOpt (some t) key = removedByDelete t key := rfl

@[simp] theorem unsharedOpt_some (removed : Trie → List Nibble → List Trie) (t : Trie)
    (key : List Nibble) : UnsharedOpt removed (some t) key = Unshared removed t key := rfl

/-! ## The path of a key -/

/-- From `t`, a walk along `key` goes on to `c` with `rest` of the key left. -/
inductive Follows : Trie → List Nibble → Trie → List Nibble → Prop
  | extension {p : NibblePath} {c : Trie} {key : List Nibble} : p.toNibbles <+: key →
      Follows (.extension p c) key c (key.drop p.toNibbles.length)
  | branch {cs : Fin 16 → Option Trie} {w : Option Value} {i : Fin 16} {rest : List Nibble}
      {c : Trie} : cs i = some c → Follows (.branch cs w) (i :: rest) c rest

/-- A walk leads from `t` down to `x`, and no node it leaves is in `b`. -/
inductive Above (b : List Trie) : Trie → List Nibble → Trie → List Nibble → Prop
  | step {t x : Trie} {key rest : List Nibble} : Follows t key x rest → t ∉ b →
      Above b t key x rest
  | cons {t d x : Trie} {key mid rest : List Nibble} : Follows t key d mid → t ∉ b →
      Above b d mid x rest → Above b t key x rest

theorem Follows.size_lt {t c : Trie} (h : Follows t key c rest) : size c < size t := by
  cases h with
  | extension _ =>
    simp only [size]
    omega
  | branch hc => exact size_child_lt hc

theorem Follows.not_leaf {c : Trie} : ¬ Follows (.leaf p v) key c rest := nofun

theorem Above.size_lt {t x : Trie} (h : Above b t key x rest) : size x < size t := by
  induction h with
  | step hf _ => exact hf.size_lt
  | cons hf _ _ ih => exact Nat.lt_trans ih hf.size_lt

/-- The walk ends at a leaf. -/
theorem Above.not_leaf {x : Trie} : ¬ Above b (.leaf p v) key x rest := by
  intro h
  cases h with
  | step hf _ => exact hf.not_leaf
  | cons hf _ _ => exact hf.not_leaf

theorem Above.snoc {t x c : Trie} {key mid rest : List Nibble} (h : Above b t key x mid)
    (hf : Follows x mid c rest) (hx : x ∉ b) : Above b t key c rest := by
  induction h with
  | step hg ht => exact .cons hg ht (.step hf hx)
  | cons hg ht _ ih => exact .cons hg ht (ih hf hx)

theorem Above.not_mem {t x : Trie} (h : Above b t key x rest) : t ∉ b := by
  cases h with
  | step _ ht => exact ht
  | cons _ ht _ => exact ht

/-- The node just below the top of a walk is its end or above its end. -/
theorem Above.next {b : List Trie} {t x : Trie} {key rest : List Nibble}
    (h : Above b t key x rest) :
    ∃ d mid, Follows t key d mid ∧ ((d = x ∧ mid = rest) ∨ Above b d mid x rest) := by
  cases h with
  | step hf _ => exact ⟨_, _, hf, Or.inl ⟨rfl, rfl⟩⟩
  | cons hf _ hd => exact ⟨_, _, hf, Or.inr hd⟩

/-- A step of the walk goes down in the insert, the removals and the split. -/
theorem Follows.removed {x c : Trie} {key rest : List Nibble} (h : Follows x key c rest) :
    removedByInsert x key = removedByInsert c rest ++ [x] := by
  cases h with
  | extension hp =>
    simp only [removedByInsert, (commonPrefixLen_eq_length_iff key _).mpr hp, if_true]
  | branch hc => simp only [removedByInsert, hc, removedByInsertOpt_some]

theorem Follows.built {x c : Trie} (h : Follows x key c rest) (v : Value) :
    built x key v = built c rest v := by
  cases h with
  | extension hp =>
    simp only [Trie.built, (commonPrefixLen_eq_length_iff key _).mpr hp, if_true]
  | branch hc => simp only [Trie.built, hc, builtOpt_some]

/-- If the image of a lower path node is an upper path node, then the same
holds of the two children that the walk goes on to. -/
theorem child_eq_of_eq_insert {t d x c : Trie} {kt kd kx kc : List Nibble} (ht : Follows t kt d kd)
    (hx : Follows x kx c kc) (he : t = insert x kx v) (hsize : size x ≤ size d) :
    d = insert c kc v := by
  cases hx with
  | extension hp =>
    simp only [insert, (commonPrefixLen_eq_length_iff kx _).mpr hp, if_true] at he
    subst he
    cases ht with
    | extension _ => rfl
  | @branch cs w i rest c hc =>
    simp only [insert, hc, insertOpt_some] at he
    subst he
    cases ht with
    | @branch _ _ j _ _ hd =>
      rcases update_eq_some hd with ⟨-, hd⟩ | ⟨-, hd⟩
      · exact (Option.some.inj hd).symm
      · -- Another child of `x` is too small to lie above it.
        have hlt := size_child_lt (v := w) hd
        omega

/-- What lies in a freshly built branch, with or without its extension. -/
theorem sub_createBranch {s : Trie} {v : Option Value} {common : List Nibble}
    (h : Sub s (createBranch cs v common)) :
    s ∈ builtBranch cs v common ∨ ∃ i c, cs i = some c ∧ Sub s c := by
  have hbranch : Sub s (.branch cs v) →
      s ∈ builtBranch cs v common ∨ ∃ i c, cs i = some c ∧ Sub s c := by
    intro h
    rcases sub_branch_iff.mp h with rfl | hc
    · exact Or.inl (List.mem_cons_self ..)
    · exact Or.inr hc
  by_cases hc : common.length > 0
  · have hext := h
    rw [createBranch, if_pos hc] at hext
    rcases sub_extension_iff.mp hext with he | hs
    · refine Or.inl (List.mem_cons_of_mem _ (List.mem_singleton.mpr ?_))
      rw [he, createBranch, if_pos hc]
    · exact hbranch hs
  · rw [createBranch, if_neg hc] at h
    exact hbranch h

/-- If the image of `x` is a node above `x`, then the image of the next node is a node above it. -/
theorem Above.image_next {t x c : Trie} {kt kx kc : List Nibble}
    (hab : Above (built c kc v) t kt x kx) (hf : Follows x kx c kc) (hx : x ∉ built c kc v)
    (he : t = insert x kx v) : ∃ mid, Above (built c kc v) (insert c kc v) mid c kc := by
  obtain ⟨d, mid, hfd, hd⟩ := hab.next
  have hsize : size x ≤ size d := by
    rcases hd with ⟨rfl, -⟩ | hd
    · exact Nat.le_refl _
    · exact Nat.le_of_lt hd.size_lt
  refine ⟨mid, child_eq_of_eq_insert hfd hf he hsize ▸ ?_⟩
  rcases hd with ⟨rfl, rfl⟩ | hd
  · exact .step hf hx
  · exact hd.snoc hf hx

/-- A node above a leaf does not occur in what the insert makes of the leaf. -/
theorem Above.not_sub_insert_leaf {w v : Value}
    (hab : Above (built (.leaf p w) kx v) t kt (.leaf p w) kx) :
    ¬ Sub t (insert (.leaf p w) kx v) := by
  intro hsub
  have hnl : ∀ q u, t ≠ .leaf q u := fun q u he => (he ▸ hab : Above _ _ _ _ _).not_leaf
  have hnb := hab.not_mem
  simp only [insert] at hsub
  simp only [built] at hnb
  split at hsub
  next => exact hnl _ _ (sub_leaf_iff.mp hsub)
  next hne =>
    rw [if_neg hne] at hnb
    rcases sub_createBranch hsub with hm | ⟨i, c, hc, hs⟩
    · exact hnb hm
    · obtain ⟨q, u, rfl⟩ := leafSplitChildren_eq_some hc
      exact hnl _ _ (sub_leaf_iff.mp hs)

/-- Nor does one above an extension that the insert splits: what is left of it is too small. -/
theorem Above.not_sub_insert_split {c t : Trie} (hp : ¬ p.toNibbles <+: kx)
    (hab : Above (built (.extension p c) kx v) t kt (.extension p c) kx) :
    ¬ Sub t (insert (.extension p c) kx v) := by
  intro hsub
  have hlt := hab.size_lt
  have hne : ¬ commonPrefixLen kx p.toNibbles = p.toNibbles.length := fun he =>
    hp ((commonPrefixLen_eq_length_iff kx _).mp he)
  have hnb := hab.not_mem
  simp only [insert, if_neg hne] at hsub
  simp only [built, if_neg hne] at hnb
  simp only [size] at hlt
  rcases sub_createBranch hsub with hm | ⟨i, d, hd, hs⟩
  · exact hnb hm
  · have hle := hs.size_le
    have hpos := size_pos c
    rcases extSplitChildren_eq_some hd with ⟨q, u, rfl⟩ | rfl | ⟨rest, rfl⟩
    · simp only [size] at hle
      omega
    · omega
    · simp only [size] at hle
      omega

/-- A node above a branch is too large to lie in one of its children. -/
theorem Above.not_sub_child {t c : Trie} {i : Fin 16} (hab : Above b t kt (.branch cs w) kx)
    (hc : cs i = some c) : ¬ Sub t c :=
  not_sub_of_size_lt (Nat.lt_trans (size_child_lt hc) hab.size_lt)

/-- A node above a branch does not occur in the branch with another value. -/
theorem Above.not_sub_insert_value (hab : Above b t kt (.branch cs w) kx) :
    ¬ Sub t (.branch cs (some v)) := by
  intro hsub
  rcases sub_branch_iff.mp hsub with he | ⟨i, c, hc, hs⟩
  · have hlt := hab.size_lt
    subst he
    simp only [size] at hlt
    omega
  · exact hab.not_sub_child hc hs

/-- Nor in the branch with a new leaf. -/
theorem Above.not_sub_insert_child {q : NibblePath} {u : Value} {i : Fin 16}
    (hab : Above b t kt (.branch cs w) kx) :
    ¬ Sub t (.branch (Function.update cs i (some (.leaf q u))) w) := by
  intro hsub
  rcases sub_branch_iff.mp hsub with he | ⟨j, c, hc, hs⟩
  · obtain ⟨d, mid, hfd, hd⟩ := hab.next
    subst he
    cases hfd with
    | branch hc =>
      rcases update_eq_some hc with ⟨-, he⟩ | ⟨-, hc⟩
      · have he := Option.some.inj he
        subst he
        rcases hd with ⟨he, -⟩ | hd
        · cases he
        · exact hd.not_leaf
      · have hlt := size_child_lt (v := w) hc
        rcases hd with ⟨rfl, -⟩ | hd
        · omega
        · have hd := hd.size_lt
          omega
  · rcases update_eq_some hc with ⟨-, he⟩ | ⟨-, hc⟩
    · have he := Option.some.inj he
      subst he
      exact (sub_leaf_iff.mp hs ▸ hab : Above _ _ _ _ _).not_leaf
    · exact hab.not_sub_child hc hs

/-- A node above `x` on the path does not occur in what the insert makes of
`x`, provided the split builds no node of the path. -/
theorem not_sub_insert (x : Trie) : ∀ (t : Trie) (kt kx : List Nibble) (v : Value),
    (∀ r ∈ removedByInsert x kx, r ∉ built x kx v) → Above (built x kx v) t kt x kx →
      ¬ Sub t (insert x kx v) := by
  -- Where the walk goes on, the image of the next node is all that has to be looked at.
  have hdown : ∀ {x c : Trie} {kx kc : List Nibble} {v : Value}, Follows x kx c kc →
      (∀ r ∈ removedByInsert x kx, r ∉ built x kx v) →
      (∀ (t : Trie) (kt : List Nibble), (∀ r ∈ removedByInsert c kc, r ∉ built c kc v) →
        Above (built c kc v) t kt c kc → ¬ Sub t (insert c kc v)) →
      ∀ {t : Trie} {kt : List Nibble}, Above (built x kx v) t kt x kx →
        t ≠ insert x kx v ∧ ¬ Sub t (insert c kc v) := by
    intro x c kx kc v hf hr ih t kt hab
    rw [hf.removed, hf.built v] at hr
    rw [hf.built v] at hab
    have hx := hr x (List.mem_append_right _ (List.mem_singleton.mpr rfl))
    have hrc := fun r hm => hr r (List.mem_append_left _ hm)
    refine ⟨fun he => ?_, ih t kt hrc (hab.snoc hf hx)⟩
    obtain ⟨mid, hmid⟩ := hab.image_next hf hx he
    exact ih _ mid hrc hmid .refl
  induction x with
  | leaf p w => exact fun t kt kx v _ hab => hab.not_sub_insert_leaf
  | extension p c ih =>
    intro t kt kx v hr hab hsub
    by_cases hp : p.toNibbles <+: kx
    · obtain ⟨hne, hno⟩ := hdown (.extension hp) hr (fun t kt => ih t kt _ v) hab
      have hins : insert (.extension p c) kx v
          = .extension p (insert c (kx.drop p.toNibbles.length) v) := by
        simp only [insert, (commonPrefixLen_eq_length_iff kx _).mpr hp, if_true]
      have hsub' := hsub
      rw [hins] at hsub'
      rcases sub_extension_iff.mp hsub' with he | hs
      · exact hne (he.trans hins.symm)
      · exact hno hs
    · exact hab.not_sub_insert_split hp hsub
  | branch cs w ih =>
    intro t kt kx v hr hab hsub
    cases kx with
    | nil => exact hab.not_sub_insert_value hsub
    | cons i rest =>
      cases hi : cs i with
      | none =>
        have hins : insert (.branch cs w) (i :: rest) v
            = .branch (Function.update cs i (some (.leaf (fromNibbles rest) v))) w := by
          simp only [insert, hi, insertOpt_none]
        exact hab.not_sub_insert_child (hins ▸ hsub)
      | some c =>
        obtain ⟨hne, hno⟩ := hdown (.branch hi) hr (fun t kt => ih i c hi t kt rest v) hab
        have hins : insert (.branch cs w) (i :: rest) v
            = .branch (Function.update cs i (some (insert c rest v))) w := by
          simp only [insert, hi, insertOpt_some]
        have hsub' := hsub
        rw [hins] at hsub'
        rcases sub_branch_iff.mp hsub' with he | ⟨j, s, hj, hs⟩
        · exact hne (he.trans hins.symm)
        · rcases update_eq_some hj with ⟨-, he⟩ | ⟨-, hj⟩
          · exact hno (Option.some.inj he ▸ hs)
          · exact hab.not_sub_child hj hs

/-- It is enough that the split builds no node of the path. -/
theorem notRebuilt_of_built (t : Trie) : ∀ (key : List Nibble) (v : Value),
    (∀ r ∈ removedByInsert t key, r ∉ built t key v) → NotRebuilt t key v := by
  induction t with
  | leaf p w =>
    intro key v _
    trivial
  | extension p c ih =>
    intro key v hr hlen
    have hf : Follows (.extension p c) key c (key.drop p.toNibbles.length) :=
      .extension ((commonPrefixLen_eq_length_iff key _).mp hlen)
    -- this node is the last one that is removed, and the first one that is rebuilt
    rw [hf.removed, hf.built v] at hr
    have hrc := fun r hm => hr r (List.mem_append_left _ hm)
    exact ⟨ih _ v hrc, not_sub_insert c _ key _ v hrc
      (.step hf (hr _ (List.mem_append_right _ (List.mem_singleton.mpr rfl))))⟩
  | branch cs w ih =>
    intro key v hr
    cases key with
    | nil => trivial
    | cons i rest =>
      cases hi : cs i with
      | none =>
        refine ⟨?_, fun c hc => ?_⟩
        · rw [hi]
          trivial
        · rw [hi] at hc
          cases hc
      | some c =>
        have hf : Follows (.branch cs w) (i :: rest) c rest := .branch hi
        rw [hf.removed, hf.built v] at hr
        have hrc := fun r hm => hr r (List.mem_append_left _ hm)
        refine ⟨?_, fun d hd => ?_⟩
        · rw [hi]
          exact ih i c hi rest v hrc
        · rw [hi] at hd
          rw [← Option.some.inj hd]
          exact not_sub_insert c _ (i :: rest) rest v hrc
            (.step hf (hr _ (List.mem_append_right _ (List.mem_singleton.mpr rfl))))

/-! ## Updates that change nothing -/

theorem createBranch_ne_leaf {v : Option Value} {common : List Nibble} {w : Value} :
    createBranch cs v common ≠ .leaf p w := by
  unfold createBranch
  split <;> exact nofun

/-- A leaf that an insert leaves alone is where the key ends, and has its value. -/
theorem insert_leaf_eq {w v : Value} {key : List Nibble}
    (h : insert (.leaf p w) key v = .leaf p w) :
    (commonPrefixLen key p.toNibbles = p.toNibbles.length ∧
      commonPrefixLen key p.toNibbles = key.length) ∧ v = w := by
  simp only [insert] at h
  split at h
  next hc =>
    injection h with _ hv
    exact ⟨hc, hv⟩
  next => exact absurd h createBranch_ne_leaf

/-- A split extension is not the old one: its child lies deeper. -/
theorem splitExt_ne {c : Trie} {key : List Nibble} {n : Nat} (hn : n < p.toNibbles.length) :
    splitExt key v p.toNibbles c n ≠ .extension p c := by
  intro h
  -- The child sits in a slot of the new branch.
  have hslot : ∃ i d, extSplitChildren key v p.toNibbles c n i = some d ∧ size c ≤ size d := by
    unfold extSplitChildren placeExtension
    match hd : p.toNibbles.drop n with
    | [] =>
      have hlen := congrArg List.length hd
      simp only [List.length_drop, List.length_nil] at hlen
      omega
    | [i] => exact ⟨i, c, Function.update_self .., Nat.le_refl _⟩
    | i :: a :: rest =>
      exact ⟨i, _, Function.update_self .., by simp only [size]; omega⟩
  obtain ⟨i, d, hd, hle⟩ := hslot
  unfold splitExt createBranch at h
  split at h
  next =>
    injection h with _ hc
    have hlt := size_child_lt (v := if key.length = n then some v else none) hd
    rw [hc] at hlt
    omega
  next => cases h

/-- An extension that an insert leaves alone has a child that it leaves alone. -/
theorem insert_extension_eq {c : Trie} {key : List Nibble}
    (h : insert (.extension p c) key v = .extension p c) :
    commonPrefixLen key p.toNibbles = p.toNibbles.length ∧
      insert c (key.drop p.toNibbles.length) v = c := by
  simp only [insert] at h
  split at h
  next hc =>
    injection h with _ he
    rw [hc] at he
    exact ⟨hc, he⟩
  next hc => exact absurd h (splitExt_ne
    (Nat.lt_of_le_of_ne (commonPrefixLen_le_right key p.toNibbles) hc))

/-- A branch that an insert leaves alone has a child on the key's path that it
leaves alone. -/
theorem insert_branch_eq {i : Fin 16} {rest : List Nibble}
    (h : insert (.branch cs w) (i :: rest) v = .branch cs w) :
    ∃ c, cs i = some c ∧ insert c rest v = c := by
  simp only [insert] at h
  injection h with hcs _
  have hi : some (insertOpt (cs i) rest v) = cs i := by
    rw [← Function.update_self i (some (insertOpt (cs i) rest v)) cs, hcs]
  cases hc : cs i with
  | none =>
    rw [hc] at hi
    cases hi
  | some c =>
    rw [hc] at hi
    exact ⟨c, rfl, Option.some.inj hi⟩

/-- Merging gives an extension over `c` only from `c` itself, as nothing
deleted from `c` is larger. -/
theorem mergeExtension_eq {c c' : Trie} (hb : IsBranch c) (hsize : size c' ≤ size c)
    (h : mergeExtension p c' = .extension p c) : c' = c := by
  cases c' with
  | leaf q v => cases h
  | extension q d =>
    injection h with _ hd
    subst hd
    simp only [size] at hsize
    omega
  | branch cs v =>
    injection h

/-- `simplify_branch` gives a branch only by leaving it alone. -/
theorem simplify_eq_branch {cs ds : Fin 16 → Option Trie} {v w : Option Value}
    (h : simplify cs v = some (.branch ds w)) : ds = cs ∧ w = v := by
  rcases simplify_eq_some h with ⟨u, he⟩ | ⟨i, c, -, rfl, he⟩ | he
  · cases he
  · cases c with
    | leaf q u => cases he
    | extension q d => cases he
    | branch es u =>
      injection he with h₁ h₂
      exact ⟨h₁, h₂⟩
  · injection he with h₁ h₂
    exact ⟨h₁, h₂⟩

end Trie

end InterBit.Storage
