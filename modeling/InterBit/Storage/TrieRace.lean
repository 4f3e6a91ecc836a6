import InterBit.Lib.Assoc
import InterBit.Lib.Run
import InterBit.Storage.TrieRun

/-!
# Gets and commits in parallel

`get` takes its locks one after the other: it looks into the cache (on a hit it
reads the node under the same guard), reads the root, walks the nodes and writes
the path it found into the cache. `commit_batch` takes the pending updates, locks
root and nodes, applies the updates, clears the cache and unlocks. Every
lock-protected section is one action of `TrieSys.step`, for any number of threads;
sections that need the root or the nodes wait while a commit has them locked.

A path may be cached after the commit that made it stale has cleared the cache
(`staleRun`). `get_returns_valueAt` says that this is all that can go wrong: if no
commit applies its updates between a get's reading of the root and its write to the
cache, and no commit panics, then every get returns what a walk from the current
root finds, whatever paths are cached.
-/

namespace InterBit.Storage

open InterBit.Lib

/-- Where a thread is in its call. -/
inductive Phase (H : Type) where
  | idle
  /-- In `get`, about to look into the cache. -/
  | getting (key : Key)
  /-- Nothing was cached; about to read the root. -/
  | missed (key : Key)
  /-- About to walk from `root`. -/
  | rootRead (key : Key) (root : H)
  /-- The walk found `value`; about to cache its path. -/
  | walked (key : Key) (value : Value) (path : List H)
  /-- In `commit_batch`, about to take the pending updates. -/
  | committing
  /-- About to lock root and nodes and to apply the updates. -/
  | taken (updates : List BatchUpdate)
  /-- Holding root and nodes, about to clear the cache. -/
  | applied

/-- A get that has read the root and has not yet written the cache. -/
def Phase.MidWalk {H : Type} : Phase H → Prop
  | .rootRead _ _ => True
  | .walked _ _ _ => True
  | _ => False

/-- The trie, who holds its root and nodes for writing, and the threads. -/
structure TrieSys (H T : Type) where
  trie : MerklePatriciaTrie H
  locked : Bool
  phase : T → Phase H

/-- One atomic section of one thread. -/
inductive TrieAction (T : Type) where
  /-- `insert` or `delete` appends to the pending updates. -/
  | enqueue (update : BatchUpdate)
  | beginGet (i : T) (key : Key)
  | lookupCache (i : T)
  | readRoot (i : T)
  | walk (i : T)
  /-- `order` is the order in which an eviction iterates over the paths. -/
  | cachePath (i : T) (order : List Key)
  | beginCommit (i : T)
  | takeBatch (i : T)
  | apply (i : T)
  | invalidate (i : T)
  deriving DecidableEq, Repr

/-- Actions of `commit_batch`. -/
def TrieAction.IsCommit {T : Type} : TrieAction T → Prop
  | .beginCommit _ => True
  | .takeBatch _ => True
  | .apply _ => True
  | .invalidate _ => True
  | _ => False

namespace TrieSys

variable {H T : Type}

/-- A new trie and no calls. -/
def init : TrieSys H T :=
  { trie := MerklePatriciaTrie.new, locked := false, phase := fun _ => .idle }

/-- What a walk from the current root finds. -/
def valueAt (s : TrieSys H T) (key : Key) : Option Value :=
  match s.trie.root with
  | none => none
  | some root =>
    (getRecursive s.trie.nodes (walkFuel (bytesToNibbles key)) root (bytesToNibbles key)).1

variable [DecidableEq H] [DecidableEq T] (hashNode : Node H → H) (hashKey : Key → H)

/-- Thread `i` moves on to `p`. -/
def goto (s : TrieSys H T) (i : T) (p : Phase H) : TrieSys H T :=
  { s with phase := Function.update s.phase i p }

/-- One action: the new state, and the key and result of the get that it ends. -/
def step (s : TrieSys H T) : TrieAction T → Option (TrieSys H T × Option (Key × Option Value))
  | .enqueue u =>
    some ({ s with trie.batchUpdates := s.trie.batchUpdates ++ [u] }, none)
  | .beginGet i key =>
    match s.phase i with
    | .idle => some (s.goto i (.getting key), none)
    | _ => none
  | .lookupCache i =>
    match s.phase i with
    | .getting key =>
      match s.trie.cache.getPath key with
      | some path =>
        -- The node is read under the cache's guard, and waits for `nodes`.
        if s.locked then none
        else
          some (s.goto i .idle,
            some (key, MerklePatriciaTrie.getWithCachedPath s.trie.nodes path))
      | none => some (s.goto i (.missed key), none)
    | _ => none
  | .readRoot i =>
    match s.phase i with
    | .missed key =>
      if s.locked then none
      else
        match s.trie.root with
        | none => some (s.goto i .idle, some (key, none))
        | some root => some (s.goto i (.rootRead key root), none)
    | _ => none
  | .walk i =>
    match s.phase i with
    | .rootRead key root =>
      if s.locked then none
      else
        match getRecursive s.trie.nodes (walkFuel (bytesToNibbles key)) root
            (bytesToNibbles key) with
        | (some value, path) => some (s.goto i (.walked key value path), none)
        | (none, _) => some (s.goto i .idle, some (key, none))
    | _ => none
  | .cachePath i order =>
    match s.phase i with
    | .walked key value path =>
      some ({ s.goto i .idle with
        trie.cache := s.trie.cache.cachePath hashKey order key path }, some (key, some value))
    | _ => none
  | .beginCommit i =>
    match s.phase i with
    | .idle => some (s.goto i .committing, none)
    | _ => none
  | .takeBatch i =>
    match s.phase i with
    | .committing =>
      if s.trie.batchUpdates = [] then some (s.goto i .idle, none)
      else
        some ({ s.goto i (.taken s.trie.batchUpdates) with trie.batchUpdates := [] }, none)
    | _ => none
  | .apply i =>
    match s.phase i with
    | .taken updates =>
      if s.locked then none
      else
        match MerklePatriciaTrie.applyUpdates hashNode s.trie.nodes s.trie.root
            (updates.insertionSort MerklePatriciaTrie.keyLe) with
        | (nodes, root, .ok ()) =>
          some ({ s.goto i .applied with
            locked := true, trie.nodes := nodes, trie.root := root }, none)
        -- A panic unwinds past the guards; the cache stays as it is.
        | (nodes, root, .error _) =>
          some ({ s.goto i .idle with trie.nodes := nodes, trie.root := root }, none)
    | _ => none
  | .invalidate i =>
    match s.phase i with
    | .applied =>
      some ({ s.goto i .idle with
        locked := false, trie.cache := s.trie.cache.invalidate }, none)
    | _ => none

/-- The condition on an action: updates are applied only while no get is between
its reading of the root and its write to the cache, and without a panic. -/
def Undisturbed (s : TrieSys H T) : TrieAction T → Prop
  | .apply i =>
    (∀ j, ¬ (s.phase j).MidWalk) ∧
      ∀ updates, s.phase i = .taken updates →
        (MerklePatriciaTrie.applyUpdates hashNode s.trie.nodes s.trie.root
          (updates.insertionSort MerklePatriciaTrie.keyLe)).2.2 = .ok ()
  | _ => True

end TrieSys

/-! ## What is cached is current -/

section Cache

variable {H : Type}

/-- The cached path of a successful walk gives the value that the walk found. -/
theorem getWithCachedPath_getRecursive [DecidableEq H] (nodes : Nodes H) (fuel : Nat) :
    ∀ (h : H) (key : List Nibble) (value : Value) (path : List H),
      getRecursive nodes fuel h key = (some value, path) →
        path ≠ [] ∧ MerklePatriciaTrie.getWithCachedPath nodes path = some value := by
  -- A walk ends at the last node of its path.
  have hlast : ∀ (h : H) (value : Value),
      (∀ n, nodes h = some n → (∃ p, n = .leaf p value) ∨ ∃ cs, n = .branch cs (some value)) →
      nodes h ≠ none → MerklePatriciaTrie.getWithCachedPath nodes [h] = some value := by
    intro h value hn hne
    obtain ⟨n, hnode⟩ := Option.ne_none_iff_exists'.mp hne
    rcases hn n hnode with ⟨p, rfl⟩ | ⟨cs, rfl⟩ <;>
      simp [MerklePatriciaTrie.getWithCachedPath, hnode]
  have hcons : ∀ (h : H) (path : List H) (value : Value), path ≠ [] ∧
      MerklePatriciaTrie.getWithCachedPath nodes path = some value →
      (h :: path) ≠ [] ∧ MerklePatriciaTrie.getWithCachedPath nodes (h :: path) = some value := by
    rintro h path value ⟨hne, hv⟩
    refine ⟨List.cons_ne_nil _ _, ?_⟩
    rw [MerklePatriciaTrie.getWithCachedPath, List.getLast?_cons_of_ne_nil hne]
    exact hv
  induction fuel with
  | zero =>
    intro h key value path he
    cases he
  | succ fuel ih =>
    intro h key value path he
    unfold getRecursive at he
    cases hn : nodes h with
    | none =>
      rw [hn] at he
      cases he
    | some n =>
      rw [hn] at he
      cases n with
      | empty => cases he
      | leaf p w =>
        dsimp only at he
        split at he
        next =>
          cases he
          exact ⟨List.cons_ne_nil _ _, hlast h value (fun n hn' => Or.inl ⟨p, by
            rw [hn] at hn'; exact (Option.some.inj hn').symm⟩) (hn ▸ Option.some_ne_none _)⟩
        next => cases he
      | extension p c =>
        dsimp only at he
        split at he
        next =>
          cases hr : getRecursive nodes fuel c (key.drop p.toNibbles.length) with
          | mk result rest =>
            rw [hr] at he
            cases he
            exact hcons h rest value (ih _ _ _ _ hr)
        next => cases he
      | branch cs w =>
        cases key with
        | nil =>
          cases he
          exact ⟨List.cons_ne_nil _ _, hlast h value (fun n hn' => Or.inr ⟨cs, by
            rw [hn] at hn'; exact (Option.some.inj hn').symm⟩) (hn ▸ Option.some_ne_none _)⟩
        | cons i rest =>
          dsimp only at he
          cases hc : cs i with
          | none =>
            rw [hc] at he
            cases he
          | some c =>
            rw [hc] at he
            dsimp only at he
            cases hr : getRecursive nodes fuel c rest with
            | mk result path' =>
              rw [hr] at he
              cases he
              exact hcons h path' value (ih _ _ _ _ hr)

theorem getPath_evict {hashKey : Key → H} {order : List Key} {cache : PathCache H} {k : Key}
    {p : List H} (h : (cache.evict hashKey order).getPath k = some p) :
    cache.getPath k = some p := by
  unfold PathCache.evict at h
  split at h
  next key _ =>
    unfold PathCache.getPath at h ⊢
    by_cases hk : k = key
    · subst hk
      rw [AList.lookup_erase] at h
      cases h
    · rwa [AList.lookup_erase_ne hk] at h
  next => exact h

/-- A path found in the cache after `cache_path` is the new one or an old one. -/
theorem getPath_cachePath [DecidableEq H] {hashKey : Key → H} {order : List Key}
    {cache : PathCache H} {key k : Key} {path p : List H}
    (h : (cache.cachePath hashKey order key path).getPath k = some p) :
    (k = key ∧ p = path) ∨ cache.getPath k = some p := by
  unfold PathCache.cachePath PathCache.getPath at h
  dsimp only at h
  rcases lookup_insert_eq_some.mp h with ⟨hk, hp⟩ | ⟨_, h⟩
  · exact Or.inl ⟨hk, hp.symm⟩
  · refine Or.inr ?_
    split at h
    next => exact getPath_evict h
    next => exact h

end Cache

namespace TrieSys

variable {H T : Type} [DecidableEq H] [DecidableEq T] {hashNode : Node H → H} {hashKey : Key → H}

/-- What holds in an undisturbed run: outside a commit's critical section the
cached paths lead to the current values, and gets on their way have seen the
current root. -/
structure Current (s : TrieSys H T) : Prop where
  cached : s.locked = false → ∀ key path, s.trie.cache.getPath key = some path →
    MerklePatriciaTrie.getWithCachedPath s.trie.nodes path = s.valueAt key
  rootRead : ∀ i key root, s.phase i = .rootRead key root → s.trie.root = some root
  walked : ∀ i key value path, s.phase i = .walked key value path →
    s.valueAt key = some value ∧
      MerklePatriciaTrie.getWithCachedPath s.trie.nodes path = some value

omit [DecidableEq H] [DecidableEq T] in
theorem current_init : (init : TrieSys H T).Current := by
  refine ⟨fun _ key path h => ?_, nofun, nofun⟩
  cases h

omit [DecidableEq H] in
/-- A thread moves on, in accordance with the current root. -/
theorem Current.goto {s : TrieSys H T} (h : s.Current) {i : T} {p : Phase H}
    (hroot : ∀ key root, p = .rootRead key root → s.trie.root = some root)
    (hwalk : ∀ key value path, p = .walked key value path → s.valueAt key = some value ∧
      MerklePatriciaTrie.getWithCachedPath s.trie.nodes path = some value) :
    (s.goto i p).Current := by
  refine ⟨h.cached, fun j key root hj => ?_, fun j key value path hj => ?_⟩
  · simp only [TrieSys.goto] at hj
    by_cases hji : j = i
    · rw [hji, Function.update_self] at hj
      exact hroot key root hj
    · rw [Function.update_of_ne hji] at hj
      exact h.rootRead j key root hj
  · simp only [TrieSys.goto] at hj
    by_cases hji : j = i
    · rw [hji, Function.update_self] at hj
      exact hwalk key value path hj
    · rw [Function.update_of_ne hji] at hj
      exact h.walked j key value path hj

omit [DecidableEq H] in
/-- A thread that is not between reading the root and caching moves on. -/
theorem Current.leave {s : TrieSys H T} (h : s.Current) {i : T} {p : Phase H}
    (hp : ¬ p.MidWalk) : (s.goto i p).Current := by
  refine h.goto ?_ ?_
  · rintro key root rfl
    exact absurd trivial hp
  · rintro key value path rfl
    exact absurd trivial hp

variable (hashNode hashKey) in
/-- What an action does, and the get that it ends. -/
inductive Moves (s : TrieSys H T) :
    TrieAction T → TrieSys H T → Option (Key × Option Value) → Prop
  | enqueue {u : BatchUpdate} :
      Moves s (.enqueue u) { s with trie.batchUpdates := s.trie.batchUpdates ++ [u] } none
  /-- A thread moves on and nothing else happens. -/
  | pass {a : TrieAction T} {i : T} {p : Phase H} : ¬ p.MidWalk → Moves s a (s.goto i p) none
  | hit {i : T} {key : Key} {path : List H} : s.locked = false →
      s.trie.cache.getPath key = some path →
      Moves s (.lookupCache i) (s.goto i .idle)
        (some (key, MerklePatriciaTrie.getWithCachedPath s.trie.nodes path))
  | noRoot {i : T} {key : Key} : s.trie.root = none →
      Moves s (.readRoot i) (s.goto i .idle) (some (key, none))
  | rootRead {i : T} {key : Key} {root : H} : s.trie.root = some root →
      Moves s (.readRoot i) (s.goto i (.rootRead key root)) none
  | found {i : T} {key : Key} {root : H} {value : Value} {path : List H} :
      s.phase i = .rootRead key root →
      getRecursive s.trie.nodes (walkFuel (bytesToNibbles key)) root (bytesToNibbles key)
        = (some value, path) →
      Moves s (.walk i) (s.goto i (.walked key value path)) none
  | notFound {i : T} {key : Key} {root : H} {path : List H} : s.phase i = .rootRead key root →
      getRecursive s.trie.nodes (walkFuel (bytesToNibbles key)) root (bytesToNibbles key)
        = (none, path) →
      Moves s (.walk i) (s.goto i .idle) (some (key, none))
  | cached {i : T} {order : List Key} {key : Key} {value : Value} {path : List H} :
      s.phase i = .walked key value path →
      Moves s (.cachePath i order)
        { s.goto i .idle with trie.cache := s.trie.cache.cachePath hashKey order key path }
        (some (key, some value))
  | taken {i : T} :
      Moves s (.takeBatch i)
        { s.goto i (.taken s.trie.batchUpdates) with trie.batchUpdates := [] } none
  | applied {i : T} {updates : List BatchUpdate} {nodes : Nodes H} {root : Option H} :
      s.phase i = .taken updates →
      MerklePatriciaTrie.applyUpdates hashNode s.trie.nodes s.trie.root
        (updates.insertionSort MerklePatriciaTrie.keyLe) = (nodes, root, .ok ()) →
      Moves s (.apply i)
        { s.goto i .applied with locked := true, trie.nodes := nodes, trie.root := root } none
  | panicked {i : T} {updates : List BatchUpdate} {nodes : Nodes H} {root : Option H}
      {e : Fault} : s.phase i = .taken updates →
      MerklePatriciaTrie.applyUpdates hashNode s.trie.nodes s.trie.root
        (updates.insertionSort MerklePatriciaTrie.keyLe) = (nodes, root, .error e) →
      Moves s (.apply i) { s.goto i .idle with trie.nodes := nodes, trie.root := root } none
  | invalidated {i : T} :
      Moves s (.invalidate i)
        { s.goto i .idle with locked := false, trie.cache := s.trie.cache.invalidate } none

theorem moves_of_step {s s' : TrieSys H T} {a : TrieAction T} {o : Option (Key × Option Value)}
    (he : s.step hashNode hashKey a = some (s', o)) : s.Moves hashNode hashKey a s' o := by
  cases a with
  | enqueue u =>
    cases he
    exact .enqueue
  | beginGet i key =>
    simp only [TrieSys.step] at he
    split at he
    next =>
      cases he
      exact .pass id
    next => cases he
  | lookupCache i =>
    simp only [TrieSys.step] at he
    split at he
    next key _ =>
      split at he
      next path hpath =>
        split at he
        next => cases he
        next hlock =>
          cases he
          exact .hit (Bool.not_eq_true _ ▸ hlock) hpath
      next =>
        cases he
        exact .pass id
    next => cases he
  | readRoot i =>
    simp only [TrieSys.step] at he
    split at he
    next key _ =>
      split at he
      next => cases he
      next =>
        split at he
        next hroot =>
          cases he
          exact .noRoot hroot
        next root hroot =>
          cases he
          exact .rootRead hroot
    next => cases he
  | walk i =>
    simp only [TrieSys.step] at he
    split at he
    next key root hphase =>
      split at he
      next => cases he
      next =>
        split at he
        next value path hwalk =>
          cases he
          exact .found hphase hwalk
        next hwalk =>
          cases he
          exact .notFound hphase hwalk
    next => cases he
  | cachePath i order =>
    simp only [TrieSys.step] at he
    split at he
    next key value path hphase =>
      cases he
      exact .cached hphase
    next => cases he
  | beginCommit i =>
    simp only [TrieSys.step] at he
    split at he
    next =>
      cases he
      exact .pass id
    next => cases he
  | takeBatch i =>
    simp only [TrieSys.step] at he
    split at he
    next =>
      split at he
      next =>
        cases he
        exact .pass id
      next =>
        cases he
        exact .taken
    next => cases he
  | apply i =>
    simp only [TrieSys.step] at he
    split at he
    next updates hphase =>
      split at he
      next => cases he
      next =>
        split at he
        next nodes root happly =>
          cases he
          exact .applied hphase happly
        next nodes root e happly =>
          cases he
          exact .panicked hphase happly
    next => cases he
  | invalidate i =>
    simp only [TrieSys.step] at he
    split at he
    next =>
      cases he
      exact .invalidated
    next => cases he

/-- One undisturbed action keeps the cached paths current, and a get that it
ends returns the current value. -/
theorem Current.step {s s' : TrieSys H T} {a : TrieAction T} {o : Option (Key × Option Value)}
    (h : s.Current) (hok : s.Undisturbed hashNode a)
    (he : s.step hashNode hashKey a = some (s', o)) :
    s'.Current ∧ ∀ key result, o = some (key, result) → result = s.valueAt key := by
  cases moves_of_step he with
  | enqueue => exact ⟨⟨h.cached, h.rootRead, h.walked⟩, nofun⟩
  | pass hp => exact ⟨h.leave hp, nofun⟩
  | hit hlock hpath =>
    refine ⟨h.leave id, ?_⟩
    rintro k result ⟨⟩
    exact h.cached hlock _ _ hpath
  | noRoot hroot =>
    refine ⟨h.leave id, ?_⟩
    rintro k result ⟨⟩
    rw [valueAt, hroot]
  | rootRead hroot =>
    refine ⟨h.goto ?_ nofun, nofun⟩
    rintro k r ⟨⟩
    exact hroot
  | found hphase hwalk =>
    refine ⟨h.goto nofun ?_, nofun⟩
    rintro k v p ⟨⟩
    refine ⟨?_, (getWithCachedPath_getRecursive _ _ _ _ _ _ hwalk).2⟩
    rw [valueAt, h.rootRead _ _ _ hphase]
    exact congrArg Prod.fst hwalk
  | notFound hphase hwalk =>
    refine ⟨h.leave id, ?_⟩
    rintro k result ⟨⟩
    rw [valueAt, h.rootRead _ _ _ hphase]
    exact (congrArg Prod.fst hwalk).symm
  | @cached i _ key value path hphase =>
    obtain ⟨hvalue, hpath⟩ := h.walked i key value path hphase
    have hleave : (s.goto i .idle).Current := h.leave id
    refine ⟨⟨fun hlock k p hp => ?_, hleave.rootRead, hleave.walked⟩, ?_⟩
    · rcases getPath_cachePath hp with ⟨rfl, rfl⟩ | hp
      · exact hpath.trans hvalue.symm
      · exact h.cached hlock k p hp
    · rintro k result ⟨⟩
      exact hvalue.symm
  | @taken i =>
    have hleave : (s.goto i (.taken s.trie.batchUpdates)).Current := h.leave id
    exact ⟨⟨hleave.cached, hleave.rootRead, hleave.walked⟩, nofun⟩
  | @applied i =>
    -- Nobody is left to cache a path of the old root.
    have hall : ∀ j, ¬ (Function.update s.phase i .applied j).MidWalk :=
      (Function.forall_update_iff s.phase fun _ p => ¬ p.MidWalk).mpr ⟨id, fun j _ => hok.1 j⟩
    have hnone : ∀ j p, Function.update s.phase i .applied j = p → ¬ p.MidWalk := by
      rintro j p rfl
      exact hall j
    exact ⟨⟨nofun, fun j key root hj => absurd trivial (hnone j _ hj),
      fun j key value path hj => absurd trivial (hnone j _ hj)⟩, nofun⟩
  | panicked hphase happly =>
    have hreturns := hok.2 _ hphase
    rw [happly] at hreturns
    cases hreturns
  | @invalidated i =>
    have hleave : (s.goto i .idle).Current := h.leave id
    refine ⟨⟨fun _ key path hp => ?_, hleave.rootRead, hleave.walked⟩, nofun⟩
    cases hp

/-- Only commits change what a walk finds. -/
theorem valueAt_step {s s' : TrieSys H T} {a : TrieAction T} {o : Option (Key × Option Value)}
    (ha : ¬ a.IsCommit) (he : s.step hashNode hashKey a = some (s', o)) :
    s'.valueAt = s.valueAt := by
  cases moves_of_step he with
  | enqueue => rfl
  | pass _ => rfl
  | hit _ _ => rfl
  | noRoot _ => rfl
  | rootRead _ => rfl
  | found _ _ => rfl
  | notFound _ _ => rfl
  | cached _ => rfl
  | taken => rfl
  | applied _ _ => exact absurd trivial ha
  | panicked _ _ => exact absurd trivial ha
  | invalidated => rfl

/-- After an undisturbed run, and further actions none of which is a commit's, a
get returns the value that its key has at the root where they began. -/
theorem get_returns_valueAt {s t u : TrieSys H T} {as bs : List (TrieAction T)}
    (hrun : Run (step hashNode hashKey) (Undisturbed hashNode) init as s)
    (hquiet : Run (step hashNode hashKey) (Undisturbed hashNode) s bs t)
    (hbs : ∀ b ∈ bs, ¬ b.IsCommit) {a : TrieAction T} (ha : ¬ a.IsCommit) {key : Key}
    {result : Option Value} (hret : t.step hashNode hashKey a = some (u, some (key, result))) :
    result = s.valueAt key := by
  have hs : s.Current := hrun.invariant (fun _ _ _ _ _ hok he h => (h.step hok he).1) current_init
  have ht : t.Current ∧ t.valueAt = s.valueAt :=
    hquiet.invariant (I := fun x => x.Current ∧ x.valueAt = s.valueAt)
      (fun x b y o hb hok he h => ⟨(h.1.step hok he).1, (valueAt_step (hbs b hb) he).trans h.2⟩)
      ⟨hs, rfl⟩
  have hok : t.Undisturbed hashNode a := by
    cases a <;> first | trivial | exact absurd trivial ha
  rw [← ht.2]
  exact (ht.1.step hok hret).2 key result rfl

/-- One key, committed by thread 0 and then read by thread 1. -/
theorem get_returns_valueAt_one_key :
    ∃ s : TrieSys FreeHash (Fin 2),
      Run (step FreeHash.mk fun _ => .mk .empty) (Undisturbed FreeHash.mk) init
        [.enqueue ⟨[0x11], some [1]⟩, .beginCommit 0, .takeBatch 0, .apply 0, .invalidate 0] s ∧
      some [1] = s.valueAt [0x11] := by
  have hruns : ∃ s t u : TrieSys FreeHash (Fin 2),
      Run (step FreeHash.mk fun _ => .mk .empty) (Undisturbed FreeHash.mk) init
        [.enqueue ⟨[0x11], some [1]⟩, .beginCommit 0, .takeBatch 0, .apply 0, .invalidate 0] s ∧
      Run (step FreeHash.mk fun _ => .mk .empty) (Undisturbed FreeHash.mk) s
        [.beginGet 1 [0x11], .lookupCache 1, .readRoot 1, .walk 1] t ∧
      t.step FreeHash.mk (fun _ => .mk .empty) (.cachePath 1 [])
        = some (u, some ([0x11], some [1])) := by
    refine ⟨_, _, _, .cons trivial rfl (.cons trivial rfl (.cons trivial rfl
        (.cons ⟨?_, ?_⟩ rfl (.cons trivial rfl .nil)))),
      .cons trivial rfl (.cons trivial rfl (.cons trivial rfl (.cons trivial rfl .nil))), rfl⟩
    · exact Fin.forall_fin_two.mpr ⟨id, id⟩
    · rintro updates ⟨⟩
      rfl
  obtain ⟨s, t, u, hrun, hquiet, hret⟩ := hruns
  refine ⟨s, hrun, get_returns_valueAt hrun hquiet ?_ id hret⟩
  simp [TrieAction.IsCommit]

local instance twoThreads : NeZero 2 := ⟨by decide⟩

/-- Thread 1 walks from the first root, thread 0 commits a second value, and only
then does thread 1 cache its path. -/
def staleRun : List (TrieAction (Fin 2)) :=
  [.enqueue ⟨[0x11], some [1]⟩, .beginCommit 0, .takeBatch 0, .apply 0, .invalidate 0,
    .beginGet 1 [0x11], .lookupCache 1, .readRoot 1, .walk 1,
    .enqueue ⟨[0x11], some [2]⟩, .beginCommit 0, .takeBatch 0, .apply 0, .invalidate 0,
    .cachePath 1 []]

/-- A get that begins after all this finds the stale path, and nothing at its end. -/
theorem staleRun_get :
    ∃ s t u, Run (step FreeHash.mk fun _ => .mk .empty) (fun _ _ => True) init staleRun s ∧
      (∀ j, s.phase j = .idle) ∧
      Run (step FreeHash.mk fun _ => .mk .empty) (fun _ _ => True) s [.beginGet 1 [0x11]] t ∧
      t.step FreeHash.mk (fun _ => .mk .empty) (.lookupCache 1) = some (u, some ([0x11], none)) ∧
      s.valueAt [0x11] = some [2] := by
  exact ⟨_, _, _, run_of_replay rfl, Fin.forall_fin_two.mpr ⟨rfl, rfl⟩,
    .cons trivial rfl .nil, rfl, rfl⟩

end TrieSys

end InterBit.Storage
