import InterBit.Lib.Locks
import InterBit.Lib.Trace
import InterBit.StateMachine.StateDB

/-!
# An eviction and the locks of the cache

The cache is a `DashMap`: its entries lie in shards, each with a lock of its own that is not
re-entrant. Its iterator holds the shard that it is in for reading, and takes the next one before it
lets go of it. `evict_cache` removes entries while it iterates, for which it asks for the same shard
for writing. `setAccount_returns_iff`: `set_account` returns exactly if there is nothing to evict, or
no coin falls; otherwise it waits for itself, and never gives `dirty_accounts` back.

So a call that returns has removed nothing (`setAccount_of_spares`), and what it leaves is its two
inserts. With that the cache and the backend together always show the newest account:
`getAccount_eq_latest` reads it back in every run of calls that return, the other half of the story
being that a run ends at the first eviction that would remove something.

A guard in hand is part of what `halt` reports, so the proof says for which shard the call waits,
and that it is the one that its own iterator guards. Which shard a key is in, how the shards are
ordered and which coins fall are arguments: the theorem is for each of them.
-/

namespace InterBit.StateMachine

open InterBit.Lib

/-- The shards of a `DashMap`. -/
structure ShardMap where
  count : Nat
  shardOf : Address → Fin count

/-- The locks that `set_account` takes. -/
inductive StateLock where
  | shard (i : Nat)
  | dirtyAccounts
  deriving DecidableEq

/-- A function of `StateDB` over its locks. -/
abbrev StateRoutine := Routine StateLock StateDB

namespace ShardMap

/-- The addresses in a shard. -/
def keysOf (map : ShardMap) (keys : List Address) (i : Nat) : List Address :=
  keys.filter fun address => (map.shardOf address).val = i

end ShardMap

namespace StateDB

open Routine

/-- Insert into the cache. -/
def cacheAccount (db : StateDB) (address : Address) (account : Account) : StateDB :=
  { db with accounts := db.accounts.insert address account }

/-- Insert into `dirty_accounts`. -/
def markDirty (db : StateDB) (address : Address) (account : Account) : StateDB :=
  { db with dirtyAccounts := db.dirtyAccounts.insert address account }

/-- Remove from the cache. -/
def uncache (db : StateDB) (address : Address) : StateDB :=
  { db with accounts := db.accounts.erase address }

variable (map : ShardMap)

/-- `DashMap::insert` on the cache. -/
def insertLocked (address : Address) (account : Account) : StateRoutine Unit :=
  guarded ⟨.shard (map.shardOf address), .write⟩ (modify (·.cacheAccount address account))

/-- `DashMap::remove` on the cache. -/
def removeLocked (address : Address) : StateRoutine Unit :=
  guarded ⟨.shard (map.shardOf address), .write⟩ (modify (·.uncache address))

/-- `DashMap::len` of the cache: the shards one after the other. -/
def lenLocked : List Nat → StateRoutine Nat
  | [] => pure 0
  | i :: shards => do
    let len ← guarded ⟨.shard i, .read⟩
      (get fun db => (map.keysOf db.accounts.keys i).length)
    let rest ← lenLocked shards
    pure (len + rest)

/-- The loop of `evict_cache` over the entries of the shard that the iterator is in; `none` is a
`break`. -/
def evictEntries (toRemove : Nat) (coin : Address → Bool) :
    List Address → Nat → StateRoutine (Option Nat)
  | [], removed => pure (some removed)
  | address :: rest, removed =>
    if removed ≥ toRemove then pure none
    else if coin address then do
      removeLocked map address
      evictEntries toRemove coin rest (removed + 1)
    else evictEntries toRemove coin rest removed

/-- The iterator lets go of the shard that it is in. -/
def leaveShard : Option Nat → StateRoutine Unit
  | none => pure ()
  | some i => .release ⟨.shard i, .read⟩ (.ret ())

/-- The loop of `evict_cache` over the shards that are left, from the one that the iterator is in. -/
def evictShards (toRemove : Nat) (eviction : Eviction) :
    Option Nat → List Nat → Nat → StateRoutine Unit
  | current, [], _ => leaveShard current
  | current, i :: shards, removed => .acquire ⟨.shard i, .read⟩ do
    leaveShard current
    let keys ← get fun db => eviction.order.arrange (map.keysOf db.accounts.keys i)
    match ← evictEntries map toRemove eviction.coin keys removed with
    | some removed => evictShards toRemove eviction (some i) shards removed
    | none => leaveShard (some i)

/-- `evict_cache`. -/
def evictCacheLocked (eviction : Eviction) : StateRoutine Unit := do
  let toRemove ← get fun db => db.cacheSize / 10
  evictShards map toRemove eviction none (List.range map.count) 0

/-- What `set_account` does with the guard of `dirty_accounts`. -/
def recordLocked (address : Address) (account : Account) (eviction : Eviction) :
    StateRoutine Unit := do
  modify (·.markDirty address account)
  let len ← lenLocked map (List.range map.count)
  let cacheSize ← get (·.cacheSize)
  if len > cacheSize then evictCacheLocked map eviction else pure ()

/-- `set_account`; the guard of `dirty_accounts` is held to the end. -/
def setAccountLocked (address : Address) (account : Account) (eviction : Eviction) :
    StateRoutine Unit := do
  insertLocked map address account
  guarded ⟨.dirtyAccounts, .write⟩ (recordLocked map address account eviction)

/-! ## As if the locks were re-entrant -/

end StateDB

/-- One class of the range. -/
theorem flatMap_range_ite {α : Type} (a : α) {k n : Nat} (hk : k < n) :
    ((List.range n).flatMap fun i => if k = i then [a] else []) = [a] := by
  induction n with
  | zero => exact absurd hk (Nat.not_lt_zero k)
  | succ n ih =>
    rw [List.range_succ, List.flatMap_append, List.flatMap_singleton]
    by_cases hlast : k = n
    · have hbefore : ((List.range n).flatMap fun i => if k = i then [a] else []) = [] := by
        refine List.flatMap_eq_nil_iff.mpr fun i hi => if_neg ?_
        have := List.mem_range.mp hi
        omega
      rw [hbefore, if_pos hlast, List.nil_append]
    · rw [ih (by omega), if_neg hlast, List.append_nil]

/-- The classes of a list, one after the other, are the list. -/
theorem perm_flatMap_filter {α : Type} {n : Nat} (f : α → Fin n) (l : List α) :
    ((List.range n).flatMap fun i => l.filter fun a => (f a).val = i).Perm l := by
  induction l with
  | nil => exact List.Perm.of_eq (List.flatMap_eq_nil_iff.mpr fun _ _ => rfl)
  | cons a l ih =>
    have hclass : ∀ i, ((a :: l).filter fun a => (f a).val = i)
        = (if (f a).val = i then [a] else []) ++ l.filter fun a => (f a).val = i := by
      intro i
      rw [List.filter_cons]
      by_cases hi : (f a).val = i
      · rw [if_pos hi, if_pos (decide_eq_true hi), List.singleton_append]
      · rw [if_neg hi, if_neg (by simpa using hi), List.nil_append]
    simp only [hclass]
    refine (List.flatMap_append_perm ..).symm.trans ?_
    rw [flatMap_range_ite a (f a).isLt]
    exact ih.cons a

/-- What is not selected can go. -/
theorem filter_erase {α : Type} [DecidableEq α] {p : α → Bool} {l : List α} {a : α}
    (hnodup : l.Nodup) (ha : p a = false) : (l.erase a).filter p = l.filter p := by
  rw [hnodup.erase_eq_filter, List.filter_filter]
  refine List.filter_congr fun b _ => ?_
  by_cases hsame : b = a
  · rw [hsame, ha, Bool.false_and]
  · rw [bne_iff_ne.mpr hsame, Bool.and_true]

namespace ShardMap

variable {map : ShardMap}

/-- The order in which the iterator goes through the shards. -/
def byShard (map : ShardMap) (order : IterOrder Address) : IterOrder Address where
  arrange keys := (List.range map.count).flatMap fun i => order.arrange (map.keysOf keys i)
  perm keys := (List.Perm.flatMap_left _ fun i _ => order.perm (map.keysOf keys i)).trans
    (perm_flatMap_filter map.shardOf keys)

theorem mem_keysOf {keys : List Address} {i : Nat} {address : Address} :
    address ∈ map.keysOf keys i ↔ address ∈ keys ∧ (map.shardOf address).val = i := by
  rw [keysOf, List.mem_filter, decide_eq_true_eq]

theorem length_keysOf (keys : List Address) :
    ((List.range map.count).map fun i => (map.keysOf keys i).length).sum = keys.length := by
  rw [← (perm_flatMap_filter map.shardOf keys).length_eq, List.length_flatMap]
  rfl

end ShardMap

namespace StateDB

open Routine

variable {map : ShardMap} {db : StateDB}

variable {coin : Address → Bool} {keys : List Address} {address : Address} {eviction : Eviction}
  {account : Account}

/-- What is evicted from one shard does not change the others. -/
theorem keysOf_evictLoop {toRemove i : Nat} (addresses : List Address)
    (hother : ∀ address ∈ addresses, (map.shardOf address).val ≠ i) :
    ∀ (removed : Nat) (accounts : AccountMap),
      map.keysOf (evictLoop toRemove coin addresses removed accounts).keys i
        = map.keysOf accounts.keys i := by
  induction addresses with
  | nil => exact fun _ _ => rfl
  | cons address rest ih =>
    intro removed accounts
    have ih := ih fun address' hmem => hother address' (List.mem_cons_of_mem _ hmem)
    unfold evictLoop
    split
    next => rfl
    next =>
      split
      next =>
        rw [ih, ShardMap.keysOf, AList.keys_erase]
        exact filter_erase accounts.keys_nodup
          (decide_eq_false (hother address (List.mem_cons_self ..)))
      next => exact ih removed accounts

/-- The loop over one shard is the first part of the loop over all. -/
theorem evictEntries_reentrant (map : ShardMap) (toRemove : Nat) (coin : Address → Bool)
    (keys : List Address) :
    ∀ (removed : Nat) (db : StateDB), ∃ result,
      (evictEntries map toRemove coin keys removed).reentrant db = (.returned result, { db with
        accounts := evictLoop toRemove coin keys removed db.accounts }) ∧
      ∀ rest, evictLoop toRemove coin (keys ++ rest) removed db.accounts
        = match result with
          | some removed' => evictLoop toRemove coin rest removed'
              (evictLoop toRemove coin keys removed db.accounts)
          | none => evictLoop toRemove coin keys removed db.accounts := by
  induction keys with
  | nil => exact fun removed db => ⟨some removed, rfl, fun rest => rfl⟩
  | cons address keys ih =>
    intro removed db
    unfold evictEntries
    simp only [List.cons_append, evictLoop]
    split
    next => exact ⟨none, rfl, fun rest => rfl⟩
    next =>
      split
      next =>
        obtain ⟨result, hrun, hrest⟩ := ih (removed + 1) (db.uncache address)
        refine ⟨result, ?_, hrest⟩
        rw [reentrant_bind, removeLocked, reentrant_guarded, reentrant_modify]
        exact hrun
      next => exact ih removed db

theorem leaveShard_reentrant (current : Option Nat) (db : StateDB) :
    (leaveShard current).reentrant db = (.returned (), db) := by
  cases current with
  | none => rfl
  | some i => rfl

theorem evictShards_reentrant (toRemove : Nat) (eviction : Eviction) (shards : List Nat) :
    shards.Nodup → ∀ (current : Option Nat) (removed : Nat) (db : StateDB),
      (evictShards map toRemove eviction current shards removed).reentrant db
        = (.returned (), { db with
          accounts := evictLoop toRemove eviction.coin
            (shards.flatMap fun i => eviction.order.arrange (map.keysOf db.accounts.keys i))
            removed db.accounts }) := by
  induction shards with
  | nil => exact fun _ current _ db => leaveShard_reentrant current db
  | cons i shards ih =>
    intro hnodup current removed db
    obtain ⟨hnotMem, hrest⟩ := List.nodup_cons.mp hnodup
    obtain ⟨result, hrun, happend⟩ := evictEntries_reentrant map toRemove eviction.coin
      (eviction.order.arrange (map.keysOf db.accounts.keys i)) removed db
    rw [evictShards, reentrant_acquire, reentrant_bind, leaveShard_reentrant]
    dsimp only [andThen]
    rw [reentrant_bind, reentrant_get]
    dsimp only [andThen]
    rw [reentrant_bind, hrun]
    dsimp only [andThen]
    rw [List.flatMap_cons, happend]
    cases result with
    | none => exact leaveShard_reentrant (some i) _
    | some removed' =>
      refine (ih hrest _ _ _).trans ?_
      -- the later shards are as they were
      have hlater : ∀ j ∈ shards, eviction.order.arrange (map.keysOf (evictLoop toRemove eviction.coin
          (eviction.order.arrange (map.keysOf db.accounts.keys i)) removed db.accounts).keys j)
          = eviction.order.arrange (map.keysOf db.accounts.keys j) := by
        intro j hj
        refine congrArg _ (keysOf_evictLoop _ (fun address hmem hsame => ?_) removed db.accounts)
        have hshard := (ShardMap.mem_keysOf.mp ((eviction.order.perm _).mem_iff.mp hmem)).2
        exact hnotMem (hshard.symm.trans hsame ▸ hj)
      rw [List.flatMap_congr hlater]

theorem lenLocked_reentrant (shards : List Nat) (db : StateDB) :
    (lenLocked map shards).reentrant db
      = (.returned (shards.map fun i => (map.keysOf db.accounts.keys i).length).sum, db) := by
  induction shards with
  | nil => rfl
  | cons i shards ih =>
    rw [lenLocked, reentrant_bind, reentrant_guarded, reentrant_get]
    dsimp only [andThen]
    rw [reentrant_bind, ih]
    rfl

/-- As if the locks were re-entrant, the routine is `set_account`. -/
theorem setAccountLocked_reentrant (map : ShardMap) (db : StateDB) (address : Address)
    (account : Account) (eviction : Eviction) :
    (setAccountLocked map address account eviction).reentrant db
      = (.returned (),
        db.setAccount address account ⟨map.byShard eviction.order, eviction.coin⟩) := by
  rw [setAccountLocked, reentrant_bind, insertLocked, reentrant_guarded, reentrant_modify]
  dsimp only [andThen]
  rw [reentrant_guarded, recordLocked, reentrant_bind, reentrant_modify]
  dsimp only [andThen]
  rw [reentrant_bind, lenLocked_reentrant, ShardMap.length_keysOf]
  dsimp only [andThen]
  rw [reentrant_bind, reentrant_get]
  dsimp only [andThen]
  have hinserted : (db.cacheAccount address account).markDirty address account
      = db.insertAccount address account := rfl
  rw [hinserted]
  unfold setAccount
  dsimp only
  split
  next =>
    rw [evictCacheLocked, reentrant_bind, reentrant_get]
    exact evictShards_reentrant _ eviction _ List.nodup_range _ _ _
  next => rfl

/-! ## With the locks that there are -/

/-- What is held in the loop over the shards. -/
def holding : Option Nat → List (Guard StateLock)
  | none => [⟨.dirtyAccounts, .write⟩]
  | some i => [⟨.shard i, .read⟩, ⟨.dirtyAccounts, .write⟩]

/-- The next shard is always free. -/
theorem harmless_shard (current : Option Nat) (i : Nat) :
    Harmless (holding current) ⟨.shard i, .read⟩ := by
  cases current with
  | none =>
    intro own hown hlock
    obtain rfl := List.mem_singleton.mp hown
    cases hlock
  | some j =>
    intro own hown hlock
    rcases List.mem_cons.mp hown with rfl | hown
    · exact ⟨rfl, rfl⟩
    · obtain rfl := List.mem_singleton.mp hown
      cases hlock

theorem halt_leaveShard (current : Option Nat) (db : StateDB) :
    (leaveShard current).halt (holding current) db = ((.returned (), db), holding none) := by
  cases current with
  | none => rfl
  | some i =>
    have hleft : (holding (some i)).erase ⟨.shard i, .read⟩ = holding none := List.erase_cons_head ..
    rw [leaveShard, halt, hleft]
    rfl

/-- The next shard is held when the current one is left. -/
theorem halt_leaveShard_next (current : Option Nat) (i : Nat) (db : StateDB) :
    (leaveShard current).halt (⟨.shard i, .read⟩ :: holding current) db
      = ((.returned (), db), holding (some i)) := by
  cases current with
  | none => rfl
  | some j =>
    have hleft : (⟨.shard i, .read⟩ :: holding (some j)).erase ⟨.shard j, .read⟩
        = holding (some i) := by
      unfold holding
      by_cases hsame : i = j
      · rw [hsame, List.erase_cons_head]
      · rw [List.erase_cons_tail (by simpa using hsame), List.erase_cons_head]
    rw [leaveShard, halt, hleft]
    rfl

theorem halt_lenLocked (shards : List Nat) (db : StateDB) :
    (lenLocked map shards).halt (holding none) db
      = ((.returned (shards.map fun i => (map.keysOf db.accounts.keys i).length).sum, db),
        holding none) := by
  induction shards with
  | nil => rfl
  | cons i shards ih =>
    rw [lenLocked, halt_bind (halt_peek (harmless_shard none i)), halt_bind ih]
    rfl

/-- The loop over a shard ends if enough is gone already. -/
theorem halt_evictEntries_break {toRemove removed : Nat} (coin : Address → Bool) (hsome : keys ≠ [])
    (hremoved : toRemove ≤ removed) (held : List (Guard StateLock)) (db : StateDB) :
    (evictEntries map toRemove coin keys removed).halt held db = ((.returned none, db), held) := by
  cases keys with
  | nil => exact absurd rfl hsome
  | cons address keys =>
    rw [evictEntries, if_pos hremoved]
    rfl

/-- No coin falls in a shard. -/
theorem halt_evictEntries_through {toRemove removed : Nat} (hremoved : removed < toRemove)
    (hcoin : ∀ key ∈ keys, coin key = false) (held : List (Guard StateLock)) (db : StateDB) :
    (evictEntries map toRemove coin keys removed).halt held db
      = ((.returned (some removed), db), held) := by
  induction keys with
  | nil => rfl
  | cons address keys ih =>
    rw [evictEntries, if_neg (Nat.not_le_of_lt hremoved),
      if_neg (by rw [hcoin address (List.mem_cons_self ..)]; exact Bool.false_ne_true)]
    exact ih fun key hkey => hcoin key (List.mem_cons_of_mem _ hkey)

/-- A removal waits for a shard that is held. -/
theorem halt_removeLocked_blocked {i : Nat} (hshard : (map.shardOf address).val = i)
    (db : StateDB) :
    (removeLocked map address).halt (holding (some i)) db
      = ((.blocked ⟨.shard i, .write⟩, db), holding (some i)) := by
  have hown : ¬ Harmless (holding (some i)) ⟨.shard i, .write⟩ :=
    fun h => not_admits_write (h _ (List.mem_cons_self ..))
  rw [removeLocked, guarded, hshard, halt, if_neg hown]

/-- A coin falls in the shard that is held. -/
theorem halt_evictEntries_blocked {toRemove removed i : Nat} (hremoved : removed < toRemove)
    (hshard : ∀ key ∈ keys, (map.shardOf key).val = i) (hcoin : ∃ key ∈ keys, coin key = true)
    (db : StateDB) :
    (evictEntries map toRemove coin keys removed).halt (holding (some i)) db
      = ((.blocked ⟨.shard i, .write⟩, db), holding (some i)) := by
  induction keys with
  | nil =>
    obtain ⟨key, hkey, _⟩ := hcoin
    cases hkey
  | cons address keys ih =>
    rw [evictEntries, if_neg (Nat.not_le_of_lt hremoved)]
    split
    next =>
      have hremove := halt_removeLocked_blocked (hshard address (List.mem_cons_self ..)) db
      exact halt_bind_blocked hremove
    next hfalse =>
      refine ih (fun key hkey => hshard key (List.mem_cons_of_mem _ hkey)) ?_
      obtain ⟨key, hkey, hfalls⟩ := hcoin
      rcases List.mem_cons.mp hkey with rfl | hkey
      · exact absurd hfalls hfalse
      · exact ⟨key, hkey, hfalls⟩

/-- If nothing is to be removed, or no coin falls, the loop over the shards ends. -/
theorem halt_evictShards {toRemove : Nat} {shards : List Nat} {db : StateDB}
    (hfree : toRemove = 0 ∨ ∀ i ∈ shards, ∀ key ∈ map.keysOf db.accounts.keys i,
      eviction.coin key = false) (current : Option Nat) :
    (evictShards map toRemove eviction current shards 0).halt (holding current) db
      = ((.returned (), db), holding none) := by
  induction shards generalizing current with
  | nil => exact halt_leaveShard current db
  | cons i shards ih =>
    have ih := ih (hfree.imp_right fun h j hj => h j (List.mem_cons_of_mem _ hj)) (some i)
    have hmem := fun key => (eviction.order.perm (map.keysOf db.accounts.keys i)).mem_iff (a := key)
    rw [evictShards, halt, if_pos (harmless_shard current i),
      halt_bind (halt_leaveShard_next current i db), halt_bind rfl]
    beta_reduce
    by_cases hremoved : toRemove = 0
    · by_cases hempty : eviction.order.arrange (map.keysOf db.accounts.keys i) = []
      · rw [hempty]
        exact ih
      · rw [halt_bind (halt_evictEntries_break _ hempty (Nat.le_of_eq hremoved) _ _)]
        exact halt_leaveShard (some i) db
    · have hcoin := hfree.resolve_left hremoved i (List.mem_cons_self ..)
      rw [halt_bind (halt_evictEntries_through (Nat.pos_of_ne_zero hremoved)
        (fun key hkey => hcoin key ((hmem key).mp hkey)) _ _)]
      exact ih

/-- If a coin falls, the loop waits for the shard that it is in. -/
theorem halt_evictShards_blocked (map : ShardMap) {toRemove : Nat} {shards : List Nat}
    {db : StateDB} (hremoved : 0 < toRemove)
    (hcoin : ∃ i ∈ shards, ∃ key ∈ map.keysOf db.accounts.keys i, eviction.coin key = true)
    (current : Option Nat) :
    ∃ i, (evictShards map toRemove eviction current shards 0).halt (holding current) db
      = ((.blocked ⟨.shard i, .write⟩, db), holding (some i)) := by
  induction shards generalizing current with
  | nil =>
    obtain ⟨i, hi, _⟩ := hcoin
    cases hi
  | cons i shards ih =>
    have hmem := fun key => (eviction.order.perm (map.keysOf db.accounts.keys i)).mem_iff (a := key)
    rw [evictShards, halt, if_pos (harmless_shard current i),
      halt_bind (halt_leaveShard_next current i db), halt_bind rfl]
    beta_reduce
    by_cases hhere : ∃ key ∈ map.keysOf db.accounts.keys i, eviction.coin key = true
    · obtain ⟨key, hkey, hfalls⟩ := hhere
      refine ⟨i, halt_bind_blocked (halt_evictEntries_blocked hremoved (fun key hkey => ?_)
        ⟨key, (hmem key).mpr hkey, hfalls⟩ db)⟩
      exact (ShardMap.mem_keysOf.mp ((hmem key).mp hkey)).2
    · rw [halt_bind (halt_evictEntries_through hremoved (fun key hkey => ?_) _ _)]
      · refine ih ?_ (some i)
        obtain ⟨j, hj, hfalls⟩ := hcoin
        rcases List.mem_cons.mp hj with rfl | hj
        · exact absurd hfalls hhere
        · exact ⟨j, hj, hfalls⟩
      · exact Bool.eq_false_iff.mpr fun hfalls => hhere ⟨key, (hmem key).mp hkey, hfalls⟩

/-- Nothing is removed from the cache: it is not too large, or too small for a tenth of it, or no coin
falls. -/
def Spares (db : StateDB) (eviction : Eviction) : Prop :=
  db.accounts.keys.length ≤ db.cacheSize ∨ db.cacheSize / 10 = 0 ∨
    ∀ address ∈ db.accounts.keys, eviction.coin address = false

instance (db : StateDB) (eviction : Eviction) : Decidable (db.Spares eviction) :=
  inferInstanceAs (Decidable (_ ∨ _ ∨ _))

/-- After its inserts `set_account` compares the size of the cache with its limit. -/
theorem halt_recordLocked (address : Address) (account : Account) (eviction : Eviction) :
    (recordLocked map address account eviction).halt (holding none)
        (db.cacheAccount address account)
      = (if (db.insertAccount address account).accounts.keys.length > db.cacheSize then
            evictCacheLocked map eviction
          else pure ()).halt (holding none) (db.insertAccount address account) := by
  rw [recordLocked, halt_bind rfl, halt_bind (halt_lenLocked _ _), halt_bind rfl,
    ShardMap.length_keysOf]
  rfl

theorem halt_insertLocked (address : Address) (account : Account) :
    (insertLocked map address account).halt [] db
      = ((.returned (), db.cacheAccount address account), []) :=
  halt_write harmless_nil

/-- An eviction that has nothing to remove, or whose coin never falls, keeps all entries. -/
theorem evictLoop_of_spared {toRemove : Nat} {addresses : List Address}
    (h : toRemove = 0 ∨ ∀ address ∈ addresses, coin address = false) (accounts : AccountMap) :
    evictLoop toRemove coin addresses 0 accounts = accounts := by
  induction addresses with
  | nil => rfl
  | cons address rest ih =>
    unfold evictLoop
    split
    next => rfl
    next hremoves =>
      have hcoin := h.resolve_left fun hzero => hremoves (Nat.le_of_eq hzero)
      have hhere := hcoin address (List.mem_cons_self ..)
      rw [if_neg (Bool.eq_false_iff.mp hhere)]
      exact ih (Or.inr fun key hkey => hcoin key (List.mem_cons_of_mem _ hkey))

/-- What `set_account` leaves if nothing is removed. -/
theorem setAccount_of_spares (h : (db.insertAccount address account).Spares eviction) :
    db.setAccount address account eviction = db.insertAccount address account := by
  unfold setAccount
  dsimp only
  split
  next hlarge =>
    refine congrArg (fun accounts => { db.insertAccount address account with accounts }) ?_
    refine evictLoop_of_spared ?_ _
    refine (h.resolve_left (Nat.not_le_of_lt hlarge)).imp_right fun hcoin key hkey => ?_
    exact hcoin key ((eviction.order.perm _).mem_iff.mp hkey)
  next => rfl

/-- Without an eviction that removes something `set_account` returns. -/
theorem halt_setAccountLocked (h : (db.insertAccount address account).Spares eviction) :
    (setAccountLocked map address account eviction).halt [] db
      = ((.returned (), db.setAccount address account eviction), []) := by
  rw [setAccountLocked, halt_bind (halt_insertLocked address account), setAccount_of_spares h]
  have hrecord : (recordLocked map address account eviction).halt (holding none)
      (db.cacheAccount address account)
      = ((.returned (), db.insertAccount address account), holding none) := by
    rw [halt_recordLocked]
    split
    next hlarge =>
      rw [evictCacheLocked, halt_bind rfl]
      refine halt_evictShards ?_ none
      refine (h.resolve_left (Nat.not_le_of_lt hlarge)).imp_right fun hcoin i _ key hkey => ?_
      exact hcoin key (ShardMap.mem_keysOf.mp hkey).1
    next => rfl
  exact halt_guarded harmless_nil hrecord

/-- Otherwise it waits for a shard that it reads, and holds `dirty_accounts`. -/
theorem halt_setAccountLocked_blocked (map : ShardMap) {db : StateDB}
    (h : ¬ (db.insertAccount address account).Spares eviction) :
    ∃ i, (setAccountLocked map address account eviction).halt [] db
      = ((.blocked ⟨.shard i, .write⟩, db.insertAccount address account), holding (some i)) := by
  obtain ⟨hlarge, hrest⟩ := not_or.mp h
  obtain ⟨hremoved, hcoin⟩ := not_or.mp hrest
  have hfalls : ∃ i ∈ List.range map.count,
      ∃ key ∈ map.keysOf (db.insertAccount address account).accounts.keys i,
        eviction.coin key = true := by
    by_contra hno
    refine hcoin fun key hkey => Bool.eq_false_iff.mpr fun hfalls => hno ?_
    exact ⟨map.shardOf key, List.mem_range.mpr (map.shardOf key).isLt, key,
      ShardMap.mem_keysOf.mpr ⟨hkey, rfl⟩, hfalls⟩
  obtain ⟨i, hblocked⟩ :=
    halt_evictShards_blocked map (Nat.pos_of_ne_zero hremoved) hfalls none
  refine ⟨i, ?_⟩
  rw [setAccountLocked, halt_bind (halt_insertLocked address account)]
  refine halt_guarded_blocked harmless_nil ?_
  refine (halt_recordLocked address account eviction).trans ?_
  have hlarge : (db.insertAccount address account).accounts.keys.length > db.cacheSize :=
    Nat.lt_of_not_le hlarge
  rw [if_pos hlarge, evictCacheLocked, halt_bind rfl]
  exact hblocked

/-- A call on the state; if it is `set_account`, it returns, with all locks given back. -/
def CallReturns (map : ShardMap) (db : StateDB) : DbCall → Prop
  | .setAccount address account eviction => ∃ db',
      (setAccountLocked map address account eviction).halt [] db = ((.returned (), db'), [])
  | _ => True

/-- A call on the state; if it is `set_account`, nothing is removed from the cache. -/
def CallSpares (db : StateDB) : DbCall → Prop
  | .setAccount address account eviction => (db.insertAccount address account).Spares eviction
  | _ => True

/-- A call returns exactly if it removes nothing. -/
theorem callReturns_iff (map : ShardMap) (db : StateDB) (call : DbCall) :
    db.CallReturns map call ↔ db.CallSpares call := by
  cases call with
  | getAccount address => exact Iff.rfl
  | setAccount address account eviction =>
    constructor
    · intro ⟨db', hreturns⟩
      by_contra hno
      obtain ⟨i, hblocked⟩ := halt_setAccountLocked_blocked map hno
      exact nomatch hblocked.symm.trans hreturns
    · intro h
      exact ⟨_, halt_setAccountLocked h⟩
  | commit blockHash orders => exact Iff.rfl

/-- In a run of calls from any state, each `set_account` returns exactly if none removes anything
from the cache. -/
theorem setAccount_returns_iff (map : ShardMap) (codec : Codec) (db : StateDB)
    (calls : List DbCall) :
    Always (DbCall.run codec) (CallReturns map) db calls ↔
      Always (DbCall.run codec) CallSpares db calls :=
  always_iff (I := fun _ => True) trivial (fun _ _ _ _ => trivial)
    fun db call _ => callReturns_iff map db call

/-- Ten accounts are set in a cache for ten. -/
def tenSets : List DbCall :=
  (List.range 10).map fun i =>
    .setAccount (Vector.replicate 20 (UInt8.ofNat i)) default
      { order := sampleOrder, coin := fun _ => false }

local instance fourShards : NeZero 4 := ⟨by decide⟩

/-- Four shards, and the first byte of an address says which it is in. -/
def sampleShards : ShardMap where
  count := 4
  shardOf address := Fin.ofNat 4 (address.toList.getD 0 0).toNat

/-- The eleventh does not return if a coin falls. -/
theorem eleventhSet_hangs :
    ¬ ({ StateDB.new (fun _ => none) with cacheSize := 10 }.runCalls sampleCodec
      tenSets).CallReturns sampleShards
        (.setAccount (.replicate 20 10) default { order := sampleOrder, coin := fun _ => true }) := by
  have hremoves : ¬ (({ StateDB.new (fun _ => none) with cacheSize := 10 }.runCalls sampleCodec
      tenSets).insertAccount (.replicate 20 10) default).Spares
        { order := sampleOrder, coin := fun _ => true } := by
    decide +kernel
  obtain ⟨i, hblocked⟩ := halt_setAccountLocked_blocked sampleShards hremoves
  intro ⟨db', hreturns⟩
  exact nomatch hblocked.symm.trans hreturns

/-! ## Reading what was written -/

/-- A call under the locks of the cache: the state after it and what `get_account` returns, if the
call returns. -/
def callLocked (map : ShardMap) (codec : Codec) (db : StateDB) :
    DbCall → Option (StateDB × Option Account)
  | .getAccount address => some (db.getAccount codec address)
  | .setAccount address account eviction =>
    match ((setAccountLocked map address account eviction).halt [] db).1 with
    | (.returned (), db') => some (db', none)
    | _ => none
  | .commit blockHash orders => some (db.commit codec blockHash orders, none)

/-- A call that returns has removed nothing from the cache, and leaves what it does without the
locks. -/
theorem spares_of_callLocked {map : ShardMap} {codec : Codec} {db db' : StateDB} {call : DbCall}
    {answer : Option Account} (h : callLocked map codec db call = some (db', answer)) :
    db.CallSpares call ∧ db' = call.run codec db := by
  cases call with
  | getAccount address => exact ⟨trivial, (congrArg Prod.fst (Option.some.inj h)).symm⟩
  | setAccount address account eviction =>
    by_cases hspares : (db.insertAccount address account).Spares eviction
    · rw [callLocked, halt_setAccountLocked hspares] at h
      exact ⟨hspares, (congrArg Prod.fst (Option.some.inj h)).symm⟩
    · obtain ⟨i, hblocked⟩ := halt_setAccountLocked_blocked map hspares
      rw [callLocked, hblocked] at h
      cases h
  | commit blockHash orders => exact ⟨trivial, (congrArg Prod.fst (Option.some.inj h)).symm⟩

/-- A call that removes nothing keeps the view coherent. -/
theorem Coherent.run_of_spares {codec : Codec} {db : StateDB} {call : DbCall}
    (h : db.Coherent codec) (hspares : db.CallSpares call) :
    (call.run codec db).Coherent codec := by
  cases call with
  | getAccount address =>
    rw [DbCall.run, Coherent, view_getAccount, newest_getAccount]
    exact h
  | setAccount address account eviction =>
    rw [DbCall.run, setAccount_of_spares hspares]
    exact h.insertAccount address account
  | commit blockHash orders => exact h.commit blockHash orders

/-- A run of calls that return keeps the view coherent, and what it shows is what was last set. -/
theorem Coherent.replay {map : ShardMap} {codec : Codec} {calls : List DbCall} {db' : StateDB} :
    ∀ {db : StateDB}, db.Coherent codec →
      InterBit.Lib.replay (callLocked map codec) db calls = some db' →
      db'.Coherent codec ∧ db'.newest codec = latest (db.newest codec) calls := by
  induction calls with
  | nil =>
    intro db h hrun
    obtain rfl := Option.some.inj hrun
    exact ⟨h, rfl⟩
  | cons call calls ih =>
    intro db h hrun
    unfold InterBit.Lib.replay at hrun
    split at hrun
    next next answer hcall =>
      obtain ⟨hspares, rfl⟩ := spares_of_callLocked hcall
      obtain ⟨hcoherent, hnewest⟩ := ih (h.run_of_spares hspares) hrun
      rw [newest_run] at hnewest
      exact ⟨hcoherent, hnewest⟩
    next => cases hrun

/-- In every run of calls that return, on a new `StateDB` over any backend, `get_account` gives the
account last set, or the backend's if none was, whatever the size of the cache, its division into
shards and the choices of `evict_cache`. -/
theorem getAccount_eq_latest (map : ShardMap) (codec : Codec) (backend : Backend) (cacheSize : Nat)
    (calls : List DbCall) (db : StateDB)
    (hrun : replay (callLocked map codec) { new backend with cacheSize } calls = some db)
    (address : Address) :
    (db.getAccount codec address).2 = latest (backend.loadAccount codec) calls address := by
  obtain ⟨hcoherent, hnewest⟩ := (coherent_new backend cacheSize).replay hrun
  have hview : db.view codec address = db.newest codec address := congrFun hcoherent address
  exact hview.trans (congrFun hnewest address)

/-- After the ten sets and a commit, an eleventh account goes over the limit, and the first is set
again; no coin falls. -/
def overLimit : List DbCall :=
  tenSets ++ [.commit (.replicate 32 0) ⟨sampleOrder, sampleOrder, sampleOrder⟩,
    .setAccount (.replicate 20 10) default { order := sampleOrder, coin := fun _ => false },
    .setAccount (.replicate 20 0) { (default : Account) with balance := 7 }
      { order := sampleOrder, coin := fun _ => false },
    .getAccount (.replicate 20 3)]

/-- All of these calls return, and the first account has its new balance. -/
theorem getAccount_eq_latest_overLimit :
    ∃ db, replay (callLocked sampleShards sampleCodec)
        { new (fun _ => none) with cacheSize := 10 } overLimit = some db ∧
      (db.getAccount sampleCodec (.replicate 20 0)).2
        = some { (default : Account) with balance := 7 } := by
  have hreturn : (replay (callLocked sampleShards sampleCodec)
      { new (fun _ => none) with cacheSize := 10 } overLimit).isSome = true := by
    decide +kernel
  obtain ⟨db, hrun⟩ := Option.isSome_iff_exists.mp hreturn
  have hlatest := getAccount_eq_latest sampleShards sampleCodec _ 10 overLimit db hrun
  refine ⟨db, hrun, (hlatest _).trans ?_⟩
  decide +kernel

end StateDB

end InterBit.StateMachine
