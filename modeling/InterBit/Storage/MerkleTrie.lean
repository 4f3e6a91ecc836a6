import Mathlib.Data.List.AList
import Mathlib.Data.List.MinMax
import Mathlib.Data.List.Sort
import InterBit.Lib.ContentStore
import InterBit.Storage.NibblePath

/-!
# `MerklePatriciaTrie`

The trie of `storage/merkle_trie.rs`: nodes filed by content hash, a root hash,
a queue of pending updates and a cache of lookup paths.

`hash_node` is SHA-256 over the bincode encoding; here the digest type `H` and
`hashNode : Node H → H` are parameters, and results that need it assume
`hashNode` injective.

Conventions:
- The pair `key: &[u8], key_index: usize` of the source is the one list
  `key[key_index..]`, the part of the key not yet consumed.
- The recursions follow hashes through the node map, so they carry fuel. A
  branch consumes a nibble and an extension leads to a branch, so
  `walkFuel` = two calls per nibble and two more are enough.
- `insert_recursive` can panic (the `unwrap` of a missing node) after it has
  changed the map, so it returns the map together with its outcome.
- The counters of `TrieMetrics` and the `hashes` table of `PathCache`, which
  nothing reads back, are left out.
-/

namespace InterBit.Storage

open InterBit.Lib
open NibblePath (fromNibbles)

abbrev Key := List UInt8
abbrev Value := List UInt8

/-- `enum Node`. -/
inductive Node (H : Type) where
  | empty
  | leaf (path : NibblePath) (value : Value)
  | extension (path : NibblePath) (child : H)
  | branch (children : Fin 16 → Option H) (value : Option Value)

/-- The map `nodes`. -/
abbrev Nodes (H : Type) := Store H (Node H)

/-- Why a trie operation did not return. -/
inductive Fault where
  | panic
  | outOfFuel
  deriving DecidableEq, Repr

/-- The edges followed by lookups: `Extension.child` and `Branch.children`. -/
def Node.Edge {H : Type} : Node H → H → Prop
  | .empty, _ => False
  | .leaf _ _, _ => False
  | .extension _ child, h => child = h
  | .branch children _, h => ∃ i, children i = some h

/-- `common_prefix_len`. -/
def commonPrefixLen : List Nibble → List Nibble → Nat
  | a :: as, b :: bs => if a = b then commonPrefixLen as bs + 1 else 0
  | _, _ => 0

/-- Calls that any walk along `nibbles` needs at most. -/
def walkFuel (nibbles : List Nibble) : Nat := 2 * nibbles.length + 2

section Nodes

variable {H : Type} [DecidableEq H] (hashNode : Node H → H)

/-- `create_node`. -/
def createNode (nodes : Nodes H) (node : Node H) : Nodes H × H :=
  (nodes.insert (hashNode node) node, hashNode node)

/-- `get_recursive`: the value found, and the hashes pushed on `path`. -/
def getRecursive (nodes : Nodes H) : Nat → H → List Nibble → Option Value × List H
  | 0, _, _ => (none, [])
  | fuel + 1, nodeHash, key =>
    match nodes nodeHash with
    | none => (none, [nodeHash])
    | some .empty => (none, [nodeHash])
    | some (.leaf leafPath value) =>
      (if key = leafPath.toNibbles then some value else none, [nodeHash])
    | some (.extension extPath child) =>
      if extPath.toNibbles <+: key then
        let (result, path) := getRecursive nodes fuel child (key.drop extPath.toNibbles.length)
        (result, nodeHash :: path)
      else (none, [nodeHash])
    | some (.branch children value) =>
      match key with
      | [] => (value, [nodeHash])
      | i :: rest =>
        match children i with
        | some childHash =>
          let (result, path) := getRecursive nodes fuel childHash rest
          (result, nodeHash :: path)
        | none => (none, [nodeHash])

/-- A leaf for what follows position `commonLen` of `key`, entered into the
branch under the nibble at that position; nothing when the key ends there. -/
def placeLeaf (nodes : Nodes H) (children : Fin 16 → Option H) (key : List Nibble)
    (commonLen : Nat) (value : Value) : Nodes H × (Fin 16 → Option H) :=
  match key.drop commonLen with
  | [] => (nodes, children)
  | i :: rest =>
    let (nodes, leafHash) := createNode hashNode nodes (.leaf (fromNibbles rest) value)
    (nodes, Function.update children i (some leafHash))

/-- What is left of an extension past position `commonLen` and the nibble there,
entered into the branch under that nibble: the child itself when nothing is
left. The source's caller has `commonLen < extNibbles.length`; on other input
the source indexes out of bounds, and this enters nothing. -/
def placeExtension (nodes : Nodes H) (children : Fin 16 → Option H) (extNibbles : List Nibble)
    (commonLen : Nat) (child : H) : Nodes H × (Fin 16 → Option H) :=
  match extNibbles.drop commonLen with
  | [] => (nodes, children)
  | [i] => (nodes, Function.update children i (some child))
  | i :: rest =>
    let (nodes, extHash) := createNode hashNode nodes (.extension (fromNibbles rest) child)
    (nodes, Function.update children i (some extHash))

/-- The common tail of the two splits: file the branch and, if the paths had a
common prefix, an extension over it. -/
def createBranch (nodes : Nodes H) (children : Fin 16 → Option H) (value : Option Value)
    (common : List Nibble) : Nodes H × H :=
  let (nodes, branchHash) := createNode hashNode nodes (.branch children value)
  if common.length > 0 then
    createNode hashNode nodes (.extension (fromNibbles common) branchHash)
  else (nodes, branchHash)

/-- `split_and_insert`. When the new key goes on past the common prefix, the
branch value is `existing_value`, whether or not the existing key ends there. -/
def splitAndInsert (nodes : Nodes H) (key : List Nibble) (value : Value)
    (existingKey : List Nibble) (existingValue : Option Value) (commonLen : Nat) :
    Nodes H × H :=
  let (nodes, children) := placeLeaf hashNode nodes (fun _ => none) key commonLen value
  let (nodes, children) :=
    match existingValue with
    | some val => placeLeaf hashNode nodes children existingKey commonLen val
    | none => (nodes, children)
  createBranch hashNode nodes children
    (if key.length = commonLen then some value else existingValue) (key.take commonLen)

/-- `split_extension`. -/
def splitExtension (nodes : Nodes H) (key : List Nibble) (value : Value)
    (extNibbles : List Nibble) (child : H) (commonLen : Nat) : Nodes H × H :=
  let (nodes, children) := placeLeaf hashNode nodes (fun _ => none) key commonLen value
  let (nodes, children) := placeExtension hashNode nodes children extNibbles commonLen child
  createBranch hashNode nodes children
    (if key.length = commonLen then some value else none) (extNibbles.take commonLen)

/-- `insert_recursive`. -/
def insertRecursive : Nat → Nodes H → Option H → List Nibble → Value →
    Nodes H × Except Fault (Option H)
  | 0, nodes, _, _, _ => (nodes, .error .outOfFuel)
  | _ + 1, nodes, none, key, value =>
    let (nodes, h) := createNode hashNode nodes (.leaf (fromNibbles key) value)
    (nodes, .ok (some h))
  | fuel + 1, nodes, some hash, key, value =>
    match nodes hash with
    -- `nodes.get(&hash).cloned().unwrap()`
    | none => (nodes, .error .panic)
    | some .empty =>
      let (nodes, h) := createNode hashNode nodes (.leaf (fromNibbles key) value)
      (nodes, .ok (some h))
    | some (.leaf leafPath leafValue) =>
      let leafNibbles := leafPath.toNibbles
      let commonLen := commonPrefixLen key leafNibbles
      if commonLen = leafNibbles.length ∧ commonLen = key.length then
        let (nodes, h) := createNode hashNode (nodes.remove hash) (.leaf leafPath value)
        (nodes, .ok (some h))
      else
        let (nodes, h) :=
          splitAndInsert hashNode nodes key value leafNibbles (some leafValue) commonLen
        (nodes, .ok (some h))
    | some (.extension extPath child) =>
      let extNibbles := extPath.toNibbles
      let commonLen := commonPrefixLen key extNibbles
      if commonLen = extNibbles.length then
        match insertRecursive fuel nodes (some child) (key.drop commonLen) value with
        | (nodes, .error e) => (nodes, .error e)
        | (nodes, .ok none) => (nodes.remove hash, .error .panic)
        | (nodes, .ok (some newChild)) =>
          let (nodes, h) := createNode hashNode (nodes.remove hash) (.extension extPath newChild)
          (nodes, .ok (some h))
      else
        let (nodes, h) := splitExtension hashNode nodes key value extNibbles child commonLen
        (nodes, .ok (some h))
    | some (.branch children branchValue) =>
      match key with
      | [] =>
        let (nodes, h) := createNode hashNode (nodes.remove hash) (.branch children (some value))
        (nodes, .ok (some h))
      | i :: rest =>
        match insertRecursive fuel nodes (children i) rest value with
        | (nodes, .error e) => (nodes, .error e)
        | (nodes, .ok newChild) =>
          let (nodes, h) := createNode hashNode (nodes.remove hash)
            (.branch (Function.update children i newChild) branchValue)
          (nodes, .ok (some h))

/-- `try_merge_extension`. -/
def tryMergeExtension (nodes : Nodes H) (path : NibblePath) (childHash : H) :
    Nodes H × Option H :=
  match nodes childHash with
  | none => (nodes, none)
  | some (.extension childPath grandchild) =>
    let (nodes, h) := createNode hashNode (nodes.remove childHash)
      (.extension (path.concat childPath) grandchild)
    (nodes, some h)
  | some (.leaf leafPath value) =>
    let (nodes, h) := createNode hashNode (nodes.remove childHash)
      (.leaf (path.concat leafPath) value)
    (nodes, some h)
  | some _ =>
    let (nodes, h) := createNode hashNode nodes (.extension path childHash)
    (nodes, some h)

/-- `non_empty_children`. -/
def nonEmptyChildren (children : Fin 16 → Option H) : List (Fin 16 × H) :=
  (List.finRange 16).filterMap fun i => (children i).map fun h => (i, h)

/-- `simplify_branch`. -/
def simplifyBranch (nodes : Nodes H) (children : Fin 16 → Option H) (value : Option Value) :
    Nodes H × Option H :=
  match nonEmptyChildren children, value with
  | [], none => (nodes, none)
  | [], some v =>
    let (nodes, h) := createNode hashNode nodes (.leaf (fromNibbles []) v)
    (nodes, some h)
  | [(index, childHash)], none =>
    match nodes childHash with
    | none => (nodes, none)
    | some (.leaf path value) =>
      let (nodes, h) := createNode hashNode (nodes.remove childHash)
        (.leaf (fromNibbles (index :: path.toNibbles)) value)
      (nodes, some h)
    | some (.extension path child) =>
      let (nodes, h) := createNode hashNode (nodes.remove childHash)
        (.extension (fromNibbles (index :: path.toNibbles)) child)
      (nodes, some h)
    | some _ =>
      let (nodes, h) := createNode hashNode nodes (.branch children value)
      (nodes, some h)
  | _, _ =>
    let (nodes, h) := createNode hashNode nodes (.branch children value)
    (nodes, some h)

/-- `delete_recursive`. A missing node ends it like an absent key (`?`). -/
def deleteRecursive : Nat → Nodes H → Option H → List Nibble → Nodes H × Except Fault (Option H)
  | 0, nodes, _, _ => (nodes, .error .outOfFuel)
  | _ + 1, nodes, none, _ => (nodes, .ok none)
  | fuel + 1, nodes, some hash, key =>
    match nodes hash with
    | none => (nodes, .ok none)
    | some .empty => (nodes, .ok (some hash))
    | some (.leaf path _) =>
      if key = path.toNibbles then (nodes.remove hash, .ok none)
      else (nodes, .ok (some hash))
    | some (.extension path child) =>
      if path.toNibbles <+: key then
        match deleteRecursive fuel nodes (some child) (key.drop path.toNibbles.length) with
        | (nodes, .error e) => (nodes, .error e)
        | (nodes, .ok none) => (nodes.remove hash, .ok none)
        | (nodes, .ok (some newChild)) =>
          let (nodes, h) := tryMergeExtension hashNode nodes path newChild
          (nodes, .ok h)
      else (nodes, .ok (some hash))
    | some (.branch children value) =>
      match key with
      | [] =>
        let (nodes, h) := simplifyBranch hashNode (nodes.remove hash) children none
        (nodes, .ok h)
      | i :: rest =>
        match children i with
        | some childHash =>
          match deleteRecursive fuel nodes (some childHash) rest with
          | (nodes, .error e) => (nodes, .error e)
          | (nodes, .ok newChild) =>
            let (nodes, h) := simplifyBranch hashNode (nodes.remove hash)
              (Function.update children i newChild) value
            (nodes, .ok h)
        | none => (nodes, .ok (some hash))

end Nodes

/-- `struct BatchUpdate`; `value` is `none` for a deletion. -/
structure BatchUpdate where
  key : Key
  value : Option Value
  deriving DecidableEq, Repr

/-- `struct PathCache`. -/
structure PathCache (H : Type) where
  paths : AList (fun _ : Key => List H)
  accessCount : H → Nat
  maxSize : Nat

namespace PathCache

variable {H : Type}

/-- `PathCache::new`. -/
def new (maxSize : Nat) : PathCache H := { paths := ∅, accessCount := fun _ => 0, maxSize }

/-- `get_path`. -/
def getPath (cache : PathCache H) (key : Key) : Option (List H) := cache.paths.lookup key

/-- `evict`: drop the first least-used entry in the order `order` in which the
map happens to be iterated. `hashKey` is SHA-256 of the key. -/
def evict (hashKey : Key → H) (order : List Key) (cache : PathCache H) : PathCache H :=
  match order.argmin fun k => cache.accessCount (hashKey k) with
  | some key => { cache with paths := cache.paths.erase key }
  | none => cache

/-- `cache_path`. -/
def cachePath [DecidableEq H] (hashKey : Key → H) (order : List Key) (cache : PathCache H)
    (key : Key) (path : List H) : PathCache H :=
  let cache := if cache.paths.keys.length ≥ cache.maxSize then cache.evict hashKey order else cache
  { cache with
    accessCount := path.foldl (fun count h => Function.update count h (count h + 1))
      cache.accessCount
    paths := cache.paths.insert key path }

/-- `invalidate`. -/
def invalidate (cache : PathCache H) : PathCache H :=
  { cache with paths := ∅, accessCount := fun _ => 0 }

end PathCache

/-- `struct MerklePatriciaTrie`. -/
structure MerklePatriciaTrie (H : Type) where
  root : Option H
  nodes : Nodes H
  cache : PathCache H
  batchUpdates : List BatchUpdate

namespace MerklePatriciaTrie

variable {H : Type} [DecidableEq H] (hashNode : Node H → H)

/-- `MerklePatriciaTrie::new`. -/
def new : MerklePatriciaTrie H :=
  { root := none, nodes := fun _ => none, cache := PathCache.new 10000, batchUpdates := [] }

/-- `get_with_cached_path`. -/
def getWithCachedPath (nodes : Nodes H) (path : List H) : Option Value :=
  match path.getLast? with
  | none => none
  | some last =>
    match nodes last with
    | some (.leaf _ value) => some value
    | some (.branch _ value) => value
    | _ => none

/-- `get`: the result, and the trie with its cache updated. -/
def get (hashKey : Key → H) (order : List Key) (t : MerklePatriciaTrie H) (key : Key) :
    Option Value × MerklePatriciaTrie H :=
  match t.cache.getPath key with
  | some cachedPath => (getWithCachedPath t.nodes cachedPath, t)
  | none =>
    match t.root with
    | none => (none, t)
    | some root =>
      let nibbles := bytesToNibbles key
      match getRecursive t.nodes (walkFuel nibbles) root nibbles with
      | (some value, path) =>
        (some value, { t with cache := t.cache.cachePath hashKey order key path })
      | (none, _) => (none, t)

/-- The key order of `sort_by(|a, b| a.key.cmp(&b.key))`. -/
def keyLe (a b : BatchUpdate) : Prop := a.key ≤ b.key

instance : DecidableRel keyLe := fun a b => inferInstanceAs (Decidable (a.key ≤ b.key))

/-- One round of the loop in `commit_batch`: an assignment to `*root`. -/
def applyUpdate (nodes : Nodes H) (root : Option H) (update : BatchUpdate) :
    Nodes H × Except Fault (Option H) :=
  let nibbles := bytesToNibbles update.key
  match update.value with
  | some value => insertRecursive hashNode (walkFuel nibbles) nodes root nibbles value
  | none => deleteRecursive hashNode (walkFuel nibbles) nodes root nibbles

/-- The loop of `commit_batch`. A fault leaves the map and the root as they
are at that point. -/
def applyUpdates : Nodes H → Option H → List BatchUpdate → Nodes H × Option H × Except Fault Unit
  | nodes, root, [] => (nodes, root, .ok ())
  | nodes, root, update :: updates =>
    match applyUpdate hashNode nodes root update with
    | (nodes, .ok root) => applyUpdates nodes root updates
    | (nodes, .error e) => (nodes, root, .error e)

/-- `commit_batch`. -/
def commitBatch (t : MerklePatriciaTrie H) : MerklePatriciaTrie H × Except Fault Unit :=
  let updates := t.batchUpdates
  let t := { t with batchUpdates := [] }
  if updates = [] then (t, .ok ())
  else
    match applyUpdates hashNode t.nodes t.root (updates.insertionSort keyLe) with
    | (nodes, root, .ok ()) =>
      ({ t with nodes, root, cache := t.cache.invalidate }, .ok ())
    | (nodes, root, .error e) => ({ t with nodes, root }, .error e)

/-- `insert`: queue the update, and commit when 100 are pending. -/
def insert (t : MerklePatriciaTrie H) (key : Key) (value : Value) :
    MerklePatriciaTrie H × Except Fault Unit :=
  let t := { t with batchUpdates := t.batchUpdates ++ [⟨key, some value⟩] }
  if t.batchUpdates.length ≥ 100 then commitBatch hashNode t else (t, .ok ())

/-- `delete`. -/
def delete (t : MerklePatriciaTrie H) (key : Key) : MerklePatriciaTrie H :=
  { t with batchUpdates := t.batchUpdates ++ [⟨key, none⟩] }

/-- `root_hash`. -/
def rootHash (t : MerklePatriciaTrie H) : Option H := t.root

end MerklePatriciaTrie

/-- A call that updates the trie. -/
inductive TrieOp where
  | insert (key : Key) (value : Value)
  | delete (key : Key)
  | commitBatch
  deriving DecidableEq, Repr

namespace MerklePatriciaTrie

variable {H : Type} [DecidableEq H] (hashNode : Node H → H)

/-- One call. -/
def call (t : MerklePatriciaTrie H) : TrieOp → MerklePatriciaTrie H × Except Fault Unit
  | .insert key value => t.insert hashNode key value
  | .delete key => (t.delete key, .ok ())
  | .commitBatch => t.commitBatch hashNode

/-- A sequence of calls, up to the first one that does not return. -/
def runOps : MerklePatriciaTrie H → List TrieOp → MerklePatriciaTrie H × Except Fault Unit
  | t, [] => (t, .ok ())
  | t, op :: ops =>
    match t.call hashNode op with
    | (t, .ok ()) => runOps t ops
    | (t, .error e) => (t, .error e)

end MerklePatriciaTrie

end InterBit.Storage
