import InterBit.EvmCompat.ConflictGroups
import Mathlib.Data.List.AList

/-!
# The parallel EVM executor

`ParallelEvmExecutor` in `evm_compat/parallel_evm.rs`. A batch is executed group by group. A
transaction whose key is in the cache gets the cached result. A panic stops a batch, but what it
has put into the cache stays there. Random numbers come from outside: `draws` has one for each
position of a batch.

A call with a known answer keeps the cache right (`Gives`). The answer to a batch is in the order
of the groups (`gives_executeBatch`).
-/

namespace InterBit.EvmCompat

open InterBit.Lib

/-! ## The code -/

/-- `struct EventLog`. -/
structure EventLog where
  address : Address
  topics : List H256
  data : List UInt8
  deriving DecidableEq

/-- `struct ExecutionResult`. -/
structure ExecutionResult where
  success : Bool
  gasUsed : U64
  output : List UInt8
  logs : List EventLog
  deriving DecidableEq

/-- `struct CachedResult`. -/
structure CachedResult where
  output : List UInt8
  gasUsed : U64
  stateChanges : List (H256 × H256)

/-- What the model takes from outside the repository. -/
structure EvmEnv extends Env where
  /-- `bincode::serialize`. -/
  serialize : Transaction → List UInt8
  /-- The key that a hash map gives first. -/
  firstKey : (AList fun _ : H256 => CachedResult) → Option H256

/-- The key of a transaction in the cache. -/
def EvmEnv.cacheKey (env : EvmEnv) (tx : Transaction) : H256 := env.sha256 (env.serialize tx)

/-- `struct ExecutionCache`. -/
structure ExecutionCache where
  cache : AList fun _ : H256 => CachedResult
  maxSize : Nat

namespace ExecutionCache

/-- `new`. -/
def new (maxSize : Nat) : ExecutionCache := ⟨∅, maxSize⟩

/-- `get`. -/
def get (self : ExecutionCache) (key : H256) : Option CachedResult := self.cache.lookup key

/-- The part of `put` that makes room. -/
def evict (env : EvmEnv) (self : ExecutionCache) : AList fun _ : H256 => CachedResult :=
  if self.maxSize ≤ self.cache.keys.length then
    match env.firstKey self.cache with
    | some oldest => self.cache.erase oldest
    | none => self.cache
  else self.cache

/-- `put`. -/
def put (env : EvmEnv) (self : ExecutionCache) (key : H256) (result : CachedResult) :
    ExecutionCache :=
  { self with cache := (self.evict env).insert key result }

variable {env : EvmEnv} {self : ExecutionCache} {key : H256} {result : CachedResult}

/-- An eviction only takes results away. -/
theorem lookup_evict {key' : H256} {cached : CachedResult}
    (h : (self.evict env).lookup key' = some cached) : self.get key' = some cached := by
  unfold evict at h
  split at h
  next =>
    split at h
    next oldest _ =>
      by_cases hkey : key' = oldest
      · rw [hkey, AList.lookup_erase] at h
        cases h
      · rwa [AList.lookup_erase_ne hkey] at h
    next => exact h
  next => exact h

/-- What the cache has after `put`. -/
theorem get_put {key' : H256} {cached : CachedResult}
    (h : (self.put env key result).get key' = some cached) :
    key' = key ∧ cached = result ∨ self.get key' = some cached := by
  by_cases hkey : key' = key
  · refine .inl ⟨hkey, ?_⟩
    rw [hkey] at h
    exact (Option.some.inj ((AList.lookup_insert _).symm.trans h)).symm
  · exact .inr (lookup_evict ((AList.lookup_insert_ne hkey).symm.trans h))

end ExecutionCache

/-- `struct SingleEvmExecutor`. -/
structure SingleEvmExecutor where
  id : Nat

/-- `struct ParallelEvmExecutor`, with the queue of its prefetcher. -/
structure ParallelEvmExecutor where
  executors : List SingleEvmExecutor
  executionCache : ExecutionCache
  prefetchQueue : List H256
  workerCount : Nat

/-- A call that may panic (`none`), and the executor after it. -/
def Call (α : Type) : Type := ParallelEvmExecutor → Option α × ParallelEvmExecutor

namespace Call

instance : Monad Call where
  pure a := fun self => (some a, self)
  bind call next := fun self =>
    match call self with
    | (some a, self) => next a self
    | (none, self) => (none, self)

/-- Look at the executor. -/
def read {α : Type} (f : ParallelEvmExecutor → α) : Call α := fun self => (some (f self), self)

/-- Change the executor. -/
def modify (f : ParallelEvmExecutor → ParallelEvmExecutor) : Call Unit :=
  fun self => (some (), f self)

/-- The value, or panic. -/
def orPanic {α : Type} (value : Option α) : Call α := fun self => (value, self)

variable {α β : Type} {call : Call α} {next : α → Call β} {self self' : ParallelEvmExecutor}

@[simp] theorem read_bind (f : ParallelEvmExecutor → α) :
    (read f >>= next) self = next (f self) self := rfl

@[simp] theorem orPanic_some_bind (a : α) : (orPanic (some a) >>= next) self = next a self := rfl

@[simp] theorem orPanic_none_bind : (orPanic none >>= next) self = (none, self) := rfl

@[simp] theorem modify_bind (f : ParallelEvmExecutor → ParallelEvmExecutor)
    {next : Unit → Call β} : (modify f >>= next) self = next () (f self) := rfl

theorem bind_of_some {a : α} (h : call self = (some a, self')) :
    (call >>= next) self = next a self' := by
  show (match call self with
    | (some a, self) => next a self
    | (none, self) => (none, self)) = _
  rw [h]

theorem bind_of_none (h : call self = (none, self')) : (call >>= next) self = (none, self') := by
  show (match call self with
    | (some a, self) => next a self
    | (none, self) => (none, self)) = _
  rw [h]

end Call

namespace ParallelEvmExecutor

/-- `new`. -/
def new (workerCount : Nat) : ParallelEvmExecutor where
  executors := (List.range workerCount).map SingleEvmExecutor.mk
  executionCache := ExecutionCache.new 10000
  prefetchQueue := []
  workerCount := workerCount

/-- `tx.data.len() as u64`. -/
def dataLen (tx : Transaction) : U64 := BitVec.ofNat 64 tx.data.length

/-- `execute_on_worker`. -/
def executeOnWorker (env : Env) (_executor : SingleEvmExecutor) (tx : Transaction) :
    Option ExecutionResult := do
  let gasUsed ← env.add64 21000 (← env.mul64 (dataLen tx) 16)
  return { success := true, gasUsed, output := [], logs := [] }

/-- `&self.executors[rand::thread_rng().gen::<usize>() % self.worker_count]`. -/
def chooseExecutor (self : ParallelEvmExecutor) (draw : Nat) : Option SingleEvmExecutor :=
  if self.workerCount = 0 then none else self.executors[draw % self.workerCount]?

/-- `execute_single`. -/
def executeSingle (env : EvmEnv) (draw : Nat) (tx : Transaction) : Call ExecutionResult := do
  let cacheKey := env.cacheKey tx
  match ← Call.read fun self => self.executionCache.get cacheKey with
  | some cached =>
    return { success := true, gasUsed := cached.gasUsed, output := cached.output, logs := [] }
  | none =>
    let executor ← Call.orPanic (← Call.read fun self => self.chooseExecutor draw)
    let result ← Call.orPanic (executeOnWorker env.toEnv executor tx)
    Call.modify fun self =>
      let cached := { output := result.output, gasUsed := result.gasUsed, stateChanges := [] }
      { self with executionCache := self.executionCache.put env cacheKey cached }
    return result

/-- The transactions of a group, one after the other. -/
def executeAll (env : EvmEnv) : List (Nat × Transaction) → Call (List ExecutionResult)
  | [] => pure []
  | (draw, tx) :: rest => do
    let result ← executeSingle env draw tx
    let results ← executeAll env rest
    return result :: results

/-- The body of the loop of `execute_batch`. -/
def executeGroup (env : EvmEnv) (draws : Nat → Nat) (transactions : List Transaction)
    (group : List Nat) : Call (List ExecutionResult) := do
  let groupTxs ← Call.orPanic (group.mapM fun i => (transactions[i]?).map fun tx => (draws i, tx))
  if group.length = 1 then
    let (draw, tx) ← Call.orPanic groupTxs[0]?
    return [← executeSingle env draw tx]
  else executeAll env groupTxs

/-- The loop of `execute_batch`. -/
def executeGroups (env : EvmEnv) (draws : Nat → Nat) (transactions : List Transaction) :
    List (List Nat) → Call (List ExecutionResult)
  | [] => pure []
  | group :: groups => do
    let results ← executeGroup env draws transactions group
    return results ++ (← executeGroups env draws transactions groups)

/-- The keys that `execute_batch` prefetches. -/
def prefetchKeys (transactions : List Transaction) : List H256 :=
  transactions.filterMap fun tx => tx.recipient.map fun addr =>
    (Vector.replicate 12 (0 : UInt8) ++ addr : Vector UInt8 (12 + 20))

/-- `execute_batch`. -/
def executeBatch (env : EvmEnv) (draws : Nat → Nat) (transactions : List Transaction) :
    Call (List ExecutionResult) := do
  let groups := ConflictAnalyzer.analyzeTransactions transactions
  Call.modify fun self =>
    { self with prefetchQueue := self.prefetchQueue ++ prefetchKeys transactions }
  executeGroups env draws transactions groups

/-- A call of `execute_batch`. -/
structure Batch where
  draws : Nat → Nat
  transactions : List Transaction

/-- The executor after some batches. -/
def afterBatches (env : EvmEnv) (workerCount : Nat) (batches : List Batch) : ParallelEvmExecutor :=
  batches.foldl (fun self batch => (executeBatch env batch.draws batch.transactions self).2)
    (new workerCount)

/-! ## What a transaction gets -/

/-- The result of a transaction without a panic. -/
def resultOf (tx : Transaction) : ExecutionResult where
  success := true
  gasUsed := 21000 + dataLen tx * 16
  output := []
  logs := []

/-- The gas of a transaction fits if it has to. -/
def GasFits (env : Env) (tx : Transaction) : Prop :=
  env.overflowChecks = true → 21000 + (dataLen tx).toNat * 16 < 2 ^ 64

instance (env : Env) (tx : Transaction) : Decidable (GasFits env tx) :=
  inferInstanceAs (Decidable (_ → _))

theorem executeOnWorker_eq (env : Env) (executor : SingleEvmExecutor) (tx : Transaction) :
    executeOnWorker env executor tx = if GasFits env tx then some (resultOf tx) else none := by
  by_cases hchecks : env.overflowChecks = true
  · have hmul : env.mul64 (dataLen tx) 16
        = if 2 ^ 64 ≤ (dataLen tx).toNat * 16 then none else some (dataLen tx * 16) :=
      if_congr (and_iff_right hchecks) rfl rfl
    have hadd (gas : U64) : env.add64 21000 gas
        = if 2 ^ 64 ≤ 21000 + gas.toNat then none else some (21000 + gas) :=
      if_congr (and_iff_right hchecks) rfl rfl
    have hfits : GasFits env tx ↔ 21000 + (dataLen tx).toNat * 16 < 2 ^ 64 :=
      ⟨fun h => h hchecks, fun h _ => h⟩
    -- The product has to fit before the sum is looked at.
    have hproduct : (dataLen tx * 16).toNat = (dataLen tx).toNat * 16 % 2 ^ 64 :=
      BitVec.toNat_mul ..
    unfold executeOnWorker
    rw [hmul]
    split
    next hle =>
      rw [if_neg (by rw [hfits]; omega)]
      rfl
    next hlt =>
      show ((env.add64 21000 (dataLen tx * 16)).bind _) = _
      rw [hadd, hproduct, Nat.mod_eq_of_lt (Nat.not_le.mp hlt)]
      split
      next hle =>
        rw [if_neg (by rw [hfits]; omega)]
        rfl
      next hlt' =>
        rw [if_pos (by rw [hfits]; omega)]
        rfl
  -- Without the checks the gas wraps around, and every transaction gets a result.
  · have hfits : GasFits env tx := fun h => absurd h hchecks
    have hmul : env.mul64 (dataLen tx) 16 = some (dataLen tx * 16) := if_neg fun h => hchecks h.1
    have hadd : env.add64 21000 (dataLen tx * 16) = some (21000 + dataLen tx * 16) :=
      if_neg fun h => hchecks h.1
    unfold executeOnWorker
    rw [if_pos hfits, hmul]
    show ((env.add64 21000 (dataLen tx * 16)).bind _) = _
    rw [hadd]
    rfl

/-- What a transaction gets from an executor with some workers. -/
def answer (env : Env) (workerCount : Nat) (tx : Transaction) : Option ExecutionResult :=
  if workerCount ≠ 0 ∧ GasFits env tx then some (resultOf tx) else none

/-! ## Calls with a known answer -/

/-- The executor is well formed, and its cache has results of transactions in `known`. -/
structure Right (env : EvmEnv) (workerCount : Nat) (known : List Transaction)
    (evm : ParallelEvmExecutor) : Prop where
  count : evm.workerCount = workerCount
  executors : evm.executors.length = workerCount
  cached : ∀ key cached, evm.executionCache.get key = some cached →
    ∃ tx ∈ known, env.cacheKey tx = key ∧ cached.output = [] ∧
      cached.gasUsed = (resultOf tx).gasUsed ∧ answer env.toEnv workerCount tx = some (resultOf tx)

/-- From an executor that is right, a call gives this answer, and leaves the executor right. -/
def Gives (env : EvmEnv) (workerCount : Nat) (known : List Transaction) {α : Type} (call : Call α)
    (result : Option α) : Prop :=
  ∀ self, Right env workerCount known self →
    (call self).1 = result ∧ Right env workerCount known (call self).2

section Rules

variable {env : EvmEnv} {workerCount : Nat} {known : List Transaction} {α β : Type}

theorem gives_pure (a : α) : Gives env workerCount known (pure a) (some a) :=
  fun _ h => ⟨rfl, h⟩

/-- Unwrapping a known value. -/
theorem Gives.orPanic_bind {a : α} {next : α → Call β} {result : Option β}
    (h : Gives env workerCount known (next a) result) :
    Gives env workerCount known (Call.orPanic (some a) >>= next) result := h

/-- One call after the other. -/
theorem Gives.bind {call : Call α} {next : α → Call β} {result : Option α} {result' : α → Option β}
    (h : Gives env workerCount known call result)
    (hnext : ∀ a, result = some a → Gives env workerCount known (next a) (result' a)) :
    Gives env workerCount known (call >>= next) (result.bind result') := by
  intro self hself
  obtain ⟨hresult, hright⟩ := h self hself
  cases result with
  | none =>
    rw [Call.bind_of_none (Prod.ext hresult rfl)]
    exact ⟨rfl, hright⟩
  | some a =>
    rw [Call.bind_of_some (Prod.ext hresult rfl)]
    exact hnext a rfl _ hright

end Rules

section Single

variable {env : EvmEnv} {draw : Nat} {tx : Transaction} {self : ParallelEvmExecutor}

theorem executeSingle_of_hit {cached : CachedResult}
    (h : self.executionCache.get (env.cacheKey tx) = some cached) :
    executeSingle env draw tx self = (some ⟨true, cached.gasUsed, cached.output, []⟩, self) := by
  unfold executeSingle
  rw [Call.read_bind, h]
  rfl

theorem executeSingle_of_miss {executor : SingleEvmExecutor} {result : ExecutionResult}
    (h : self.executionCache.get (env.cacheKey tx) = none)
    (hexecutor : self.chooseExecutor draw = some executor)
    (hresult : executeOnWorker env.toEnv executor tx = some result) :
    executeSingle env draw tx self = (some result, { self with
      executionCache := self.executionCache.put env (env.cacheKey tx)
        ⟨result.output, result.gasUsed, []⟩ }) := by
  unfold executeSingle
  rw [Call.read_bind, h]
  dsimp only
  rw [Call.read_bind, hexecutor, Call.orPanic_some_bind, hresult, Call.orPanic_some_bind,
    Call.modify_bind]
  rfl

/-- A miss whose worker panics stores nothing. -/
theorem executeSingle_of_panic (h : self.executionCache.get (env.cacheKey tx) = none)
    (hpanic : ∀ executor, self.chooseExecutor draw = some executor →
      executeOnWorker env.toEnv executor tx = none) :
    executeSingle env draw tx self = (none, self) := by
  unfold executeSingle
  rw [Call.read_bind, h]
  dsimp only
  rw [Call.read_bind]
  cases hexecutor : self.chooseExecutor draw with
  | none => rw [Call.orPanic_none_bind]
  | some executor => rw [Call.orPanic_some_bind, hpanic executor hexecutor, Call.orPanic_none_bind]

end Single

section Batches

variable {env : EvmEnv} {workerCount : Nat} {known : List Transaction}

/-- With a cache key for each transaction, a transaction gets its own answer. -/
theorem gives_executeSingle (hkey : Set.InjOn env.cacheKey {tx | tx ∈ known}) (draw : Nat)
    {tx : Transaction} (hknown : tx ∈ known) :
    Gives env workerCount known (executeSingle env draw tx) (answer env.toEnv workerCount tx) := by
  intro self hself
  cases hget : self.executionCache.get (env.cacheKey tx) with
  | some cached =>
    obtain ⟨tx', hknown', hkey', houtput, hgas, hanswer⟩ := hself.cached _ _ hget
    -- the cached answer is the transaction's own, since keys are not shared
    obtain rfl : tx' = tx := hkey hknown' hknown hkey'
    rw [executeSingle_of_hit hget, houtput, hgas, hanswer]
    exact ⟨rfl, hself⟩
  | none =>
    by_cases hworker : workerCount = 0
    · have hpanic : answer env.toEnv workerCount tx = none := if_neg fun h => h.1 hworker
      have hchoose : self.chooseExecutor draw = none := if_pos (hself.count.trans hworker)
      rw [executeSingle_of_panic hget (fun _ h => nomatch hchoose.symm.trans h), hpanic]
      exact ⟨rfl, hself⟩
    have hexecutor : ∃ executor, self.chooseExecutor draw = some executor := by
      have hlt : draw % self.workerCount < self.executors.length := by
        rw [hself.count, hself.executors]
        exact Nat.mod_lt _ (Nat.pos_of_ne_zero hworker)
      refine ⟨self.executors[draw % self.workerCount], ?_⟩
      rw [chooseExecutor, if_neg (fun h => hworker (hself.count.symm.trans h)),
        List.getElem?_eq_getElem hlt]
    obtain ⟨executor, hexecutor⟩ := hexecutor
    -- whatever worker is drawn, it answers the same
    have hanswer : answer env.toEnv workerCount tx = executeOnWorker env.toEnv executor tx := by
      rw [executeOnWorker_eq]
      exact if_congr (and_iff_right hworker) rfl rfl
    by_cases hfits : GasFits env.toEnv tx
    · have hresult : executeOnWorker env.toEnv executor tx = some (resultOf tx) := by
        rw [executeOnWorker_eq, if_pos hfits]
      rw [executeSingle_of_miss hget hexecutor hresult, hanswer, hresult]
      refine ⟨rfl, hself.count, hself.executors, fun key cached hcached => ?_⟩
      rcases ExecutionCache.get_put hcached with ⟨rfl, rfl⟩ | hold
      · exact ⟨tx, hknown, rfl, rfl, rfl, hanswer.trans hresult⟩
      · exact hself.cached key cached hold
    · have hresult (executor : SingleEvmExecutor) :
          executeOnWorker env.toEnv executor tx = none := by
        rw [executeOnWorker_eq, if_neg hfits]
      rw [executeSingle_of_panic hget fun executor _ => hresult executor, hanswer, hresult]
      exact ⟨rfl, hself⟩

theorem gives_executeAll (hkey : Set.InjOn env.cacheKey {tx | tx ∈ known})
    (pairs : List (Nat × Transaction)) (hknown : ∀ pair ∈ pairs, pair.2 ∈ known) :
    Gives env workerCount known (executeAll env pairs)
      ((pairs.map Prod.snd).mapM (answer env.toEnv workerCount)) := by
  induction pairs with
  | nil => exact gives_pure []
  | cons pair rest ih =>
    obtain ⟨draw, tx⟩ := pair
    rw [List.map_cons, List.mapM_cons]
    refine (gives_executeSingle hkey draw (hknown _ List.mem_cons_self)).bind fun result _ => ?_
    exact (ih fun pair hpair => hknown pair (List.mem_cons_of_mem _ hpair)).bind
      fun results _ => gives_pure (result :: results)

/-- The transactions at some positions. -/
def txsAt (txs : List Transaction) (positions : List Nat) : List Transaction :=
  positions.filterMap (txs[·]?)

variable {txs : List Transaction}

/-- No index of a group is out of range. -/
theorem exists_groupTxs (draws : Nat → Nat) {group : List Nat}
    (hgroup : ∀ i ∈ group, i < txs.length) :
    ∃ groupTxs, group.mapM (fun i => (txs[i]?).map fun tx => (draws i, tx)) = some groupTxs ∧
      groupTxs.map Prod.snd = txsAt txs group ∧ groupTxs.length = group.length := by
  induction group with
  | nil => exact ⟨[], rfl, rfl, rfl⟩
  | cons i group ih =>
    have hlt : i < txs.length := hgroup i List.mem_cons_self
    have hi : txs[i]? = some txs[i] := List.getElem?_eq_getElem hlt
    obtain ⟨groupTxs, hpairs, hsnd, hlength⟩ :=
      ih fun j hj => hgroup j (List.mem_cons_of_mem _ hj)
    refine ⟨(draws i, txs[i]) :: groupTxs, ?_, ?_, congrArg Nat.succ hlength⟩
    · rw [List.mapM_cons, hi, hpairs]
      rfl
    · rw [List.map_cons, hsnd, txsAt, txsAt, List.filterMap_cons_some hi]

theorem mem_of_mem_txsAt {positions : List Nat} {tx : Transaction} (h : tx ∈ txsAt txs positions) :
    tx ∈ txs := by
  obtain ⟨i, -, hi⟩ := List.mem_filterMap.mp h
  exact List.mem_of_getElem? hi

/-- Whether there is one transaction or more, a group is executed in the same way. -/
theorem gives_executeGroup (hkey : Set.InjOn env.cacheKey {tx | tx ∈ known}) (draws : Nat → Nat)
    (hknown : ∀ tx ∈ txs, tx ∈ known) {group : List Nat} (hgroup : ∀ i ∈ group, i < txs.length) :
    Gives env workerCount known (executeGroup env draws txs group)
      ((txsAt txs group).mapM (answer env.toEnv workerCount)) := by
  obtain ⟨groupTxs, hpairs, hsnd, hlength⟩ := exists_groupTxs draws hgroup
  have hmem : ∀ pair ∈ groupTxs, pair.2 ∈ known := by
    intro pair hpair
    exact hknown _ (mem_of_mem_txsAt (hsnd ▸ List.mem_map_of_mem hpair))
  rw [executeGroup, hpairs, ← hsnd]
  refine Gives.orPanic_bind ?_
  split
  next hone =>
    obtain ⟨pair, rfl⟩ := List.length_eq_one_iff.mp (hlength.trans hone)
    rw [List.map_singleton, List.mapM_cons]
    refine Gives.orPanic_bind ?_
    exact (gives_executeSingle hkey pair.1 (hmem pair (List.mem_singleton_self _))).bind
      fun result _ => gives_pure [result]
  next => exact gives_executeAll hkey groupTxs hmem

theorem gives_executeGroups (hkey : Set.InjOn env.cacheKey {tx | tx ∈ known}) (draws : Nat → Nat)
    (hknown : ∀ tx ∈ txs, tx ∈ known) (groups : List (List Nat))
    (hgroups : ∀ group ∈ groups, ∀ i ∈ group, i < txs.length) :
    Gives env workerCount known (executeGroups env draws txs groups)
      ((txsAt txs groups.flatten).mapM (answer env.toEnv workerCount)) := by
  induction groups with
  | nil => exact gives_pure []
  | cons group groups ih =>
    rw [List.flatten_cons, txsAt, List.filterMap_append, List.mapM_append]
    refine (gives_executeGroup hkey draws hknown (hgroups _ List.mem_cons_self)).bind
      fun results _ => ?_
    exact (ih fun group hgroup => hgroups group (List.mem_cons_of_mem _ hgroup)).bind
      fun rest _ => gives_pure (results ++ rest)

/-- The transactions in the order of their groups. -/
def groupedTxs (txs : List Transaction) : List Transaction :=
  txsAt txs (classes (SameTarget txs) txs.length).flatten

/-- The groups have every transaction once. -/
theorem groupedTxs_perm (txs : List Transaction) : (groupedTxs txs).Perm txs := by
  have hmap : (List.range txs.length).map (txs[·]?) = txs.map some := by
    refine List.ext_getElem (by simp) fun i hi _ => ?_
    rw [List.length_map, List.length_range] at hi
    rw [List.getElem_map, List.getElem_map, List.getElem_range, List.getElem?_eq_getElem hi]
  have hall : txsAt txs (List.range txs.length) = txs := by
    calc txsAt txs (List.range txs.length)
        = ((List.range txs.length).map (txs[·]?)).filterMap id := by
          rw [List.filterMap_map]
          rfl
      _ = txs.filterMap (id ∘ some) := by rw [hmap, List.filterMap_map]
      _ = txs := List.filterMap_some
  have hperm := (flatten_classes_perm (n := txs.length) (sameTarget_equivalence txs)).filterMap
    (txs[·]?)
  exact hperm.trans (List.Perm.of_eq hall)

/-- The answer to a batch: those to its transactions, in the order of the groups. -/
theorem gives_executeBatch (hkey : Set.InjOn env.cacheKey {tx | tx ∈ known}) (draws : Nat → Nat)
    (hknown : ∀ tx ∈ txs, tx ∈ known) :
    Gives env workerCount known (executeBatch env draws txs)
      ((groupedTxs txs).mapM (answer env.toEnv workerCount)) := by
  intro self hself
  have hgroups : ∀ group ∈ classes (SameTarget txs) txs.length, ∀ i ∈ group, i < txs.length := by
    intro group hgroup i hi
    obtain ⟨j, -, -, rfl⟩ := mem_classes.mp hgroup
    exact (mem_classOf.mp hi).1
  rw [executeBatch, Call.modify_bind, ConflictAnalyzer.analyzeTransactions_eq]
  exact gives_executeGroups hkey draws hknown _ hgroups _
    ⟨hself.count, hself.executors, hself.cached⟩

/-- A new executor is right. -/
theorem right_new : Right env workerCount known (new workerCount) where
  count := rfl
  executors := by rw [new, List.length_map, List.length_range]
  cached _ _ h := by cases h

/-- The executor is right after every sequence of batches. -/
theorem right_afterBatches {batches : List Batch}
    (hkey : Set.InjOn env.cacheKey {tx | tx ∈ known})
    (hknown : ∀ batch ∈ batches, ∀ tx ∈ batch.transactions, tx ∈ known) :
    Right env workerCount known (afterBatches env workerCount batches) := by
  induction batches using List.reverseRecOn with
  | nil => exact right_new
  | append_singleton batches batch ih =>
    have hself := ih fun batch hbatch => hknown batch (List.mem_append_left _ hbatch)
    rw [afterBatches, List.foldl_append, List.foldl_cons, List.foldl_nil]
    exact (gives_executeBatch hkey batch.draws
      (hknown batch (List.mem_append_right _ (List.mem_singleton_self _))) _ hself).2

end Batches

end ParallelEvmExecutor

end InterBit.EvmCompat
