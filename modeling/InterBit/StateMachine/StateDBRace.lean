import InterBit.Lib.Run
import InterBit.StateMachine.StateDB

/-!
# `get_account` and `set_account` in parallel

On a miss `get_account` reads the backend and then puts what it has read into the
cache, and `set_account` inserts into the same cache and then into the dirty map.
Each access is one action of `DbSys.step`, for any number of threads; nothing is
evicted.

A `set_account` may come between the two halves of a reload, and the reload then
overwrites the newer account (`staleReload`). `get_returns_last_set` says that
nothing else goes wrong: if no reload puts an account over a different one, every
get that begins after an account has been set returns it.
-/

namespace InterBit.StateMachine

open InterBit.Lib

/-- Where a thread is in its call. -/
inductive DbPhase where
  | idle
  /-- In `get_account`, about to look into the cache. -/
  | looking (address : Address)
  /-- Nothing was cached; about to read the backend. -/
  | missed (address : Address)
  /-- The backend had `account`; about to cache it. -/
  | loaded (address : Address) (account : Account)
  /-- In `set_account`, about to insert into the cache. -/
  | setting (address : Address) (account : Account)
  /-- About to insert into the dirty map. -/
  | cached (address : Address) (account : Account)

/-- The store and the threads. -/
structure DbSys (T : Type) where
  db : StateDB
  phase : T → DbPhase

/-- One access of one thread. -/
inductive DbAction (T : Type) where
  | beginGet (i : T) (address : Address)
  | lookupCache (i : T)
  | readBackend (i : T)
  | cacheLoaded (i : T)
  | beginSet (i : T) (address : Address) (account : Account)
  | insertCache (i : T)
  | insertDirty (i : T)

/-- A call that returns. -/
inductive DbReturn (T : Type) where
  | got (i : T) (address : Address) (result : Option Account)
  | set (i : T) (address : Address) (account : Account)

namespace DbSys

variable {T : Type}

/-- A store and no calls. -/
def init (db : StateDB) : DbSys T := { db, phase := fun _ => .idle }

variable [DecidableEq T] (codec : Codec)

/-- Thread `i` moves on to `p`. -/
def goto (s : DbSys T) (i : T) (p : DbPhase) : DbSys T :=
  { s with phase := Function.update s.phase i p }

/-- One action: the new state, and the call that it ends. -/
def step (s : DbSys T) : DbAction T → Option (DbSys T × Option (DbReturn T))
  | .beginGet i address =>
    match s.phase i with
    | .idle => some (s.goto i (.looking address), none)
    | _ => none
  | .lookupCache i =>
    match s.phase i with
    | .looking address =>
      match s.db.accounts.lookup address with
      | some account => some (s.goto i .idle, some (.got i address (some account)))
      | none => some (s.goto i (.missed address), none)
    | _ => none
  | .readBackend i =>
    match s.phase i with
    | .missed address =>
      match s.db.backend.loadAccount codec address with
      | some account => some (s.goto i (.loaded address account), none)
      | none => some (s.goto i .idle, some (.got i address none))
    | _ => none
  | .cacheLoaded i =>
    match s.phase i with
    | .loaded address account =>
      some ({ s.goto i .idle with db.accounts := s.db.accounts.insert address account },
        some (.got i address (some account)))
    | _ => none
  | .beginSet i address account =>
    match s.phase i with
    | .idle => some (s.goto i (.setting address account), none)
    | _ => none
  | .insertCache i =>
    match s.phase i with
    | .setting address account =>
      some ({ s.goto i (.cached address account) with
        db.accounts := s.db.accounts.insert address account }, none)
    | _ => none
  | .insertDirty i =>
    match s.phase i with
    | .cached address account =>
      some ({ s.goto i .idle with
        db.dirtyAccounts := s.db.dirtyAccounts.insert address account },
        some (.set i address account))
    | _ => none

/-- The condition on an action: a reload finds the address empty in the cache, or
with the account that it puts there. -/
def FreshReload (s : DbSys T) : DbAction T → Prop
  | .cacheLoaded i => ∀ address account, s.phase i = .loaded address account →
      s.db.accounts.lookup address = none ∨ s.db.accounts.lookup address = some account
  | _ => True

/-- The action is the cache insert of a `set_account` at `address`. -/
def SetsAt (address : Address) (s : DbSys T) : DbAction T → Prop
  | .insertCache i => ∃ account, s.phase i = .setting address account
  | _ => False

/-- Thread `i` is not between a miss at `address` and the end of that get. -/
def NotReloading (address : Address) (i : T) (s : DbSys T) : Prop :=
  s.phase i ≠ .missed address ∧ ∀ account, s.phase i ≠ .loaded address account

/-- What an action can do. -/
inductive Moves (s : DbSys T) : DbAction T → DbSys T → Option (DbReturn T) → Prop
  | beginGet {i : T} {address : Address} : s.phase i = .idle →
      Moves s (.beginGet i address) (s.goto i (.looking address)) none
  | hit {i : T} {address : Address} {account : Account} : s.phase i = .looking address →
      s.db.accounts.lookup address = some account →
      Moves s (.lookupCache i) (s.goto i .idle) (some (.got i address (some account)))
  | miss {i : T} {address : Address} : s.phase i = .looking address →
      s.db.accounts.lookup address = none →
      Moves s (.lookupCache i) (s.goto i (.missed address)) none
  | load {i : T} {address : Address} {account : Account} : s.phase i = .missed address →
      Moves s (.readBackend i) (s.goto i (.loaded address account)) none
  | absent {i : T} {address : Address} : s.phase i = .missed address →
      Moves s (.readBackend i) (s.goto i .idle) (some (.got i address none))
  | cacheLoaded {i : T} {address : Address} {account : Account} :
      s.phase i = .loaded address account →
      Moves s (.cacheLoaded i)
        { s.goto i .idle with db.accounts := s.db.accounts.insert address account }
        (some (.got i address (some account)))
  | beginSet {i : T} {address : Address} {account : Account} : s.phase i = .idle →
      Moves s (.beginSet i address account) (s.goto i (.setting address account)) none
  | insertCache {i : T} {address : Address} {account : Account} :
      s.phase i = .setting address account →
      Moves s (.insertCache i)
        { s.goto i (.cached address account) with
          db.accounts := s.db.accounts.insert address account } none
  | insertDirty {i : T} {address : Address} {account : Account} :
      s.phase i = .cached address account →
      Moves s (.insertDirty i)
        { s.goto i .idle with db.dirtyAccounts := s.db.dirtyAccounts.insert address account }
        (some (.set i address account))

variable {codec} {s s' : DbSys T} {a : DbAction T} {o : Option (DbReturn T)} {address : Address}
  {account : Account}

theorem moves_of_step (h : s.step codec a = some (s', o)) : s.Moves a s' o := by
  cases a with
  | beginGet i b =>
    simp only [step] at h
    split at h <;> cases h
    next hphase => exact .beginGet hphase
  | lookupCache i =>
    simp only [step] at h
    split at h
    next hphase =>
      split at h <;> cases h
      next hfound => exact .hit hphase hfound
      next hnone => exact .miss hphase hnone
    next => cases h
  | readBackend i =>
    simp only [step] at h
    split at h
    next hphase =>
      split at h <;> cases h
      · exact .load hphase
      · exact .absent hphase
    next => cases h
  | cacheLoaded i =>
    simp only [step] at h
    split at h <;> cases h
    next hphase => exact .cacheLoaded hphase
  | beginSet i b x =>
    simp only [step] at h
    split at h <;> cases h
    next hphase => exact .beginSet hphase
  | insertCache i =>
    simp only [step] at h
    split at h <;> cases h
    next hphase => exact .insertCache hphase
  | insertDirty i =>
    simp only [step] at h
    split at h <;> cases h
    next hphase => exact .insertDirty hphase

/-- A thread that moves on, but not to a miss or a reload at `address`, leaves every
thread as far from reloading as it was. -/
theorem NotReloading.goto {i j : T} (h : s.NotReloading address j) {p : DbPhase}
    (hp : p ≠ .missed address ∧ ∀ account, p ≠ .loaded address account) :
    (s.goto i p).NotReloading address j := by
  unfold NotReloading DbSys.goto
  dsimp only
  by_cases hj : j = i
  · rw [hj, Function.update_self]
    exact hp
  · rw [Function.update_of_ne hj]
    exact h

/-- With `account` in the cache at `address`, an action that neither sets there nor
reloads over a different account leaves it there. -/
theorem lookup_step (hc : s.db.accounts.lookup address = some account) (hok : s.FreshReload a)
    (hset : ¬ SetsAt address s a) (h : s.step codec a = some (s', o)) :
    s'.db.accounts.lookup address = some account := by
  cases moves_of_step h with
  | cacheLoaded hphase =>
    rename_i i b reloaded
    by_cases hb : address = b
    · subst hb
      have hsame : s.db.accounts.lookup address = some reloaded :=
        (hok address reloaded hphase).resolve_left (by rw [hc]; exact Option.some_ne_none _)
      rw [← hc, hsame]
      exact AList.lookup_insert _
    · exact (AList.lookup_insert_ne hb).trans hc
  | insertCache hphase =>
    rename_i i b x
    have hb : address ≠ b := fun hb => hset ⟨x, hb ▸ hphase⟩
    exact (AList.lookup_insert_ne hb).trans hc
  | _ => exact hc

/-- With an account in the cache at `address`, no thread begins to reload it. -/
theorem NotReloading.step {j : T} (hc : s.db.accounts.lookup address = some account)
    (hj : s.NotReloading address j) (h : s.step codec a = some (s', o)) :
    s'.NotReloading address j := by
  cases moves_of_step h with
  | miss _ hnone =>
    refine hj.goto ⟨fun he => ?_, fun _ => DbPhase.noConfusion⟩
    obtain rfl := DbPhase.missed.inj he
    rw [hc] at hnone
    cases hnone
  | load hphase =>
    rename_i i b x
    by_cases hji : j = i
    · -- The get of `j` itself: it had missed another address.
      subst hji
      refine hj.goto ⟨DbPhase.noConfusion, fun y he => hj.1 ?_⟩
      rw [hphase, (DbPhase.loaded.inj he).1]
    · unfold NotReloading DbSys.goto
      dsimp only
      rw [Function.update_of_ne hji]
      exact hj
  | _ => exact hj.goto ⟨DbPhase.noConfusion, fun _ => DbPhase.noConfusion⟩

/-- A get that is not reloading returns what is in the cache. -/
theorem NotReloading.got {j : T} {result : Option Account}
    (hc : s.db.accounts.lookup address = some account) (hj : s.NotReloading address j)
    (h : s.step codec a = some (s', some (.got j address result))) : result = some account := by
  cases moves_of_step h with
  | hit _ hfound => exact hfound.symm.trans hc
  | absent hphase => exact absurd hphase hj.1
  | cacheLoaded hphase => exact absurd hphase (hj.2 _)

/-- An account is set at `address`, some time later a get begins there, and some time
later it returns. If no account is set there in between, and no reload puts an account
over a different one, the get returns the account that was set. -/
theorem get_returns_last_set {s₁ s₂ s₃ s₄ s₅ : DbSys T} {i j : T} {as bs : List (DbAction T)}
    {result : Option Account} {o₁ o₃ : Option (DbReturn T)}
    (hset : s.phase i = .setting address account)
    (hinsert : s.step codec (.insertCache i) = some (s₁, o₁))
    (has : Run (step codec) (fun s a => s.FreshReload a ∧ ¬ SetsAt address s a) s₁ as s₂)
    (hbegin : s₂.step codec (.beginGet j address) = some (s₃, o₃))
    (hbs : Run (step codec) (fun s a => s.FreshReload a ∧ ¬ SetsAt address s a) s₃ bs s₄)
    (hret : s₄.step codec a = some (s₅, some (.got j address result))) :
    result = some account := by
  have h₁ : s₁.db.accounts.lookup address = some account := by
    cases moves_of_step hinsert with
    | insertCache hphase =>
      obtain ⟨rfl, rfl⟩ := DbPhase.setting.inj (hset.symm.trans hphase)
      exact AList.lookup_insert _
  have h₂ : s₂.db.accounts.lookup address = some account :=
    has.invariant (I := fun x => x.db.accounts.lookup address = some account)
      (fun _ _ _ _ _ hok he hc => lookup_step hc hok.1 hok.2 he) h₁
  -- From its beginning on the get does not reload.
  have h₃ : s₃.db.accounts.lookup address = some account ∧ s₃.NotReloading address j := by
    cases moves_of_step hbegin with
    | beginGet _ =>
      refine ⟨h₂, ?_⟩
      unfold NotReloading DbSys.goto
      dsimp only
      rw [Function.update_self]
      exact ⟨DbPhase.noConfusion, fun _ => DbPhase.noConfusion⟩
  have h₄ : s₄.db.accounts.lookup address = some account ∧ s₄.NotReloading address j :=
    hbs.invariant
      (I := fun x => x.db.accounts.lookup address = some account ∧ x.NotReloading address j)
      (fun _ _ _ _ _ hok he hc => ⟨lookup_step hc.1 hok.1 hok.2 he, hc.2.step hc.1 he⟩) h₃
  exact h₄.2.got h₄.1 hret

/-- The condition cannot be dropped at any reload: a get that begins after it returns
the account that it put into the cache, whatever was there before. -/
theorem get_after_reload {s₁ s₂ s₃ : DbSys T} {i j : T} {result : Option Account}
    {o₁ o₂ : Option (DbReturn T)} (hphase : s.phase i = .loaded address account)
    (hreload : s.step codec (.cacheLoaded i) = some (s₁, o₁))
    (hbegin : s₁.step codec (.beginGet j address) = some (s₂, o₂))
    (hret : s₂.step codec (.lookupCache j) = some (s₃, some (.got j address result))) :
    result = some account := by
  have hc : s₁.db.accounts.lookup address = some account := by
    cases moves_of_step hreload with
    | cacheLoaded h =>
      obtain ⟨rfl, rfl⟩ := DbPhase.loaded.inj (hphase.symm.trans h)
      exact AList.lookup_insert _
  cases moves_of_step hbegin with
  | beginGet _ =>
    cases moves_of_step hret with
    | hit _ hfound => exact hfound.symm.trans hc

/-- A backend that has an empty account at every key. -/
def sampleBackend : Backend := fun _ => some (sampleCodec.serialize default)

/-- An account with balance 1. -/
def sampleAccount : Account := { (default : Account) with balance := 1 }

/-- Thread 0 sets Alice's account while thread 1 reloads Bob's, and then thread 1 gets Alice's. -/
theorem get_returns_last_set_alice :
    ∃ (s t u : DbSys (Fin 2)) (result : Option Account),
      Run (step sampleCodec) (fun _ _ => True) (init (StateDB.new sampleBackend))
        [.beginGet 1 bob, .lookupCache 1, .readBackend 1, .beginSet 0 alice sampleAccount] s ∧
      Run (step sampleCodec) (fun _ _ => True) s
        [.insertCache 0, .cacheLoaded 1, .insertDirty 0, .beginGet 1 alice] t ∧
      t.step sampleCodec (.lookupCache 1) = some (u, some (.got 1 alice result)) ∧
      result = some sampleAccount := by
  have hruns : ∃ (s s₁ s₂ s₃ s₄ s₅ : DbSys (Fin 2)) (bobs result : Option Account),
      Run (step sampleCodec) (fun _ _ => True) (init (StateDB.new sampleBackend))
        [.beginGet 1 bob, .lookupCache 1, .readBackend 1, .beginSet 0 alice sampleAccount] s ∧
      s.phase 0 = .setting alice sampleAccount ∧
      s.step sampleCodec (.insertCache 0) = some (s₁, none) ∧
      s₁.FreshReload (.cacheLoaded 1) ∧
      s₁.step sampleCodec (.cacheLoaded 1) = some (s₂, some (.got 1 bob bobs)) ∧
      s₂.step sampleCodec (.insertDirty 0) = some (s₃, some (.set 0 alice sampleAccount)) ∧
      s₃.step sampleCodec (.beginGet 1 alice) = some (s₄, none) ∧
      s₄.step sampleCodec (.lookupCache 1) = some (s₅, some (.got 1 alice result)) := by
    refine ⟨_, _, _, _, _, _, _, _, run_of_replay rfl, rfl, rfl, ?_, rfl, rfl, rfl, rfl⟩
    intro address account hloaded
    obtain ⟨rfl, -⟩ := DbPhase.loaded.inj hloaded
    exact Or.inl rfl
  obtain ⟨s, s₁, s₂, s₃, s₄, s₅, _, result, hstart, hset, hinsert, hfresh, hreload, hdirty, hbegin,
    hret⟩ := hruns
  have hquiet : Run (step sampleCodec) (fun s a => s.FreshReload a ∧ ¬ SetsAt alice s a) s₁
      [.cacheLoaded 1, .insertDirty 0] s₃ :=
    .cons ⟨hfresh, id⟩ hreload (.cons ⟨trivial, id⟩ hdirty .nil)
  refine ⟨s, s₄, s₅, result, hstart, ?_, hret,
    get_returns_last_set hset hinsert hquiet hbegin .nil hret⟩
  exact .cons trivial hinsert (.cons trivial hreload (.cons trivial hdirty
    (.cons trivial hbegin .nil)))

local instance twoThreads : NeZero 2 := ⟨by decide⟩

/-- Thread 1 reads Alice's account from the backend, thread 0 sets a newer one and
returns, and only then does thread 1 cache what it has read. -/
def staleReload : List (DbAction (Fin 2)) :=
  [.beginGet 1 alice, .lookupCache 1, .readBackend 1,
    .beginSet 0 alice sampleAccount, .insertCache 0, .insertDirty 0, .cacheLoaded 1]

/-- A get that begins after all this does not return the newer account. -/
theorem staleReload_get :
    ∃ s t u result, Run (step sampleCodec) (fun _ _ => True) (init (StateDB.new sampleBackend))
        staleReload s ∧
      (∀ j, s.phase j = .idle) ∧
      Run (step sampleCodec) (fun _ _ => True) s [.beginGet 0 alice] t ∧
      t.step sampleCodec (.lookupCache 0) = some (u, some (.got 0 alice result)) ∧
      result ≠ some sampleAccount := by
  exact ⟨_, _, _, _, run_of_replay rfl, Fin.forall_fin_two.mpr ⟨rfl, rfl⟩,
    .cons trivial rfl .nil, rfl, by decide +kernel⟩

end DbSys

end InterBit.StateMachine
