import Mathlib.Algebra.Ring.Nat
import Mathlib.Data.List.AList

/-!
# Loops over association lists

A hash map is an association list, and a loop over it visits the entries in some
order. What such a loop has done to a map at one key depends only on the entry
with that key, since no key occurs twice.
-/

namespace InterBit.Lib

variable {α β : Type} [DecidableEq α]

/-- Insert the entries that `p` selects. -/
def insertWhere (p : α → β → Bool) (entries : List (Sigma fun _ : α => β))
    (m : AList fun _ : α => β) : AList fun _ : α => β :=
  entries.foldl (fun m e => if p e.1 e.2 then m.insert e.1 e.2 else m) m

variable {p : α → β → Bool} {m : AList fun _ : α => β} {entries : List (Sigma fun _ : α => β)}
  {key : α}

/-- A key that is not among the entries keeps its value. -/
theorem lookup_insertWhere_of_none {k : α} (entries : List (Sigma fun _ : α => β)) :
    ∀ m : AList fun _ : α => β,
      entries.dlookup k = none → (insertWhere p entries m).lookup k = m.lookup k := by
  induction entries with
  | nil => exact fun _ _ => rfl
  | cons e entries ih =>
    intro m h
    obtain ⟨key, v⟩ := e
    have hne : k ≠ key := by
      rintro rfl
      rw [List.dlookup_cons_eq] at h
      cases h
    rw [List.dlookup_cons_ne _ _ hne] at h
    refine (ih _ h).trans ?_
    dsimp only
    split
    next => exact AList.lookup_insert_ne hne
    next => rfl

theorem lookup_insertWhere_of_some {k : α} {v : β} (entries : List (Sigma fun _ : α => β)) :
    ∀ m : AList fun _ : α => β, entries.NodupKeys →
      entries.dlookup k = some v →
      (insertWhere p entries m).lookup k = if p k v then some v else m.lookup k := by
  induction entries with
  | nil =>
    intro _ _ h
    cases h
  | cons e entries ih =>
    intro m hnodup h
    obtain ⟨key, w⟩ := e
    obtain ⟨hkey, hrest⟩ := List.nodupKeys_cons.mp hnodup
    by_cases hk : k = key
    · subst hk
      rw [List.dlookup_cons_eq] at h
      obtain rfl := Option.some.inj h
      refine (lookup_insertWhere_of_none entries _ (List.dlookup_eq_none.mpr hkey)).trans ?_
      dsimp only
      split
      next => exact AList.lookup_insert _
      next => rfl
    · rw [List.dlookup_cons_ne _ _ hk] at h
      refine (ih _ hrest h).trans ?_
      dsimp only
      split
      next => rfl
      next =>
        split
        next => exact AList.lookup_insert_ne hk
        next => rfl

/-- Every entry of a map is found, in whatever order the map is gone through. -/
theorem dlookup_of_perm (h : entries.Perm m.entries) (k : α) : entries.dlookup k = m.lookup k :=
  List.perm_dlookup k ((List.perm_nodupKeys h).mpr m.nodupKeys) h

/-- Both cases for entries that a map has in some order. -/
theorem lookup_insertWhere_of_perm {m' : AList fun _ : α => β} (h : entries.Perm m'.entries)
    (m : AList fun _ : α => β) (k : α) :
    (insertWhere p entries m).lookup k
      = match m'.lookup k with
        | some v => if p k v then some v else m.lookup k
        | none => m.lookup k := by
  have hlookup := dlookup_of_perm h k
  cases hk : m'.lookup k with
  | none => exact lookup_insertWhere_of_none _ _ (hlookup.trans hk)
  | some v =>
    exact lookup_insertWhere_of_some _ _ ((List.perm_nodupKeys h).mpr m'.nodupKeys)
      (hlookup.trans hk)

/-- Insert all entries. -/
def insertAll (entries : List (Sigma fun _ : α => β)) (m : AList fun _ : α => β) :
    AList fun _ : α => β :=
  entries.foldl (fun m e => m.insert e.1 e.2) m

/-- Inserting the entries of a map into an empty one gives the map. -/
theorem lookup_insertAll_of_perm (h : entries.Perm m.entries) (k : α) :
    (insertAll entries ∅).lookup k = m.lookup k := by
  refine (lookup_insertWhere_of_perm (p := fun _ _ => true) h ∅ k).trans ?_
  cases m.lookup k with
  | none => rfl
  | some v => rfl

/-- Erase the entries whose keys `p` selects. -/
def eraseWhere (p : α → Bool) (entries : List (Sigma fun _ : α => β)) (m : AList fun _ : α => β) :
    AList fun _ : α => β :=
  entries.foldl (fun m e => if p e.1 then m.erase e.1 else m) m

theorem lookup_eraseWhere {p : α → Bool} (k : α) (entries : List (Sigma fun _ : α => β)) :
    ∀ m : AList fun _ : α => β, (eraseWhere p entries m).lookup k
      = if p k = true ∧ k ∈ entries.keys then none else m.lookup k := by
  induction entries with
  | nil => exact fun m => (if_neg fun h => nomatch h.2).symm
  | cons e entries ih =>
    intro m
    refine (ih _).trans ?_
    rw [List.keys_cons]
    dsimp only
    by_cases hk : k = e.1
    · subst hk
      by_cases hp : p e.1 = true
      · have herased : (if p e.1 then m.erase e.1 else m).lookup e.1 = none := by
          rw [if_pos hp, AList.lookup_erase]
        rw [herased, ite_self, if_pos ⟨hp, List.mem_cons_self ..⟩]
      · have hkept : (if p e.1 then m.erase e.1 else m) = m := if_neg hp
        rw [hkept, if_neg fun h => hp h.1, if_neg fun h => hp h.1]
    · have hone : (if p e.1 then m.erase e.1 else m).lookup k = m.lookup k := by
        split
        next => exact AList.lookup_erase_ne hk
        next => rfl
      rw [hone]
      refine if_congr (and_congr_right fun _ => ?_) rfl rfl
      exact ⟨List.mem_cons_of_mem _, fun h => (List.mem_cons.mp h).resolve_left hk⟩

/-- `HashMap::retain`. -/
def retain (p : α → β → Bool) (m : AList fun _ : α => β) : AList fun _ : α => β :=
  ⟨m.entries.filter fun e => p e.1 e.2, m.nodupKeys.sublist List.filter_sublist⟩

theorem dlookup_filter (k : α) (h : entries.NodupKeys) :
    (entries.filter fun e => p e.1 e.2).dlookup k = (entries.dlookup k).filter (p k) := by
  induction entries with
  | nil => rfl
  | cons e entries ih =>
    obtain ⟨hkey, hrest⟩ := List.nodupKeys_cons.mp h
    by_cases hk : k = e.1
    · subst hk
      rw [List.dlookup_cons_eq, Option.filter_some, List.filter_cons]
      split
      next => exact List.dlookup_cons_eq ..
      next =>
        rw [ih hrest, List.dlookup_eq_none.mpr hkey]
        rfl
    · rw [List.dlookup_cons_ne _ _ hk, ← ih hrest, List.filter_cons]
      split
      next => exact List.dlookup_cons_ne _ _ hk
      next => rfl

/-- What is kept is what was there and is selected. -/
theorem lookup_retain (p : α → β → Bool) (m : AList fun _ : α => β) (k : α) :
    (retain p m).lookup k = (m.lookup k).filter (p k) :=
  dlookup_filter k m.nodupKeys

/-- What is found after an insertion is new, or it was there. -/
theorem lookup_insert_eq_some {k k' : α} {v w : β} :
    (m.insert k v).lookup k' = some w ↔ (k' = k ∧ v = w) ∨ k' ≠ k ∧ m.lookup k' = some w := by
  by_cases hk : k' = k
  · subst hk
    rw [AList.lookup_insert, Option.some_inj, and_iff_right rfl]
    exact (or_iff_left fun h => h.1 rfl).symm
  · rw [AList.lookup_insert_ne hk, and_iff_right hk]
    exact (or_iff_right fun h => hk h.1).symm

theorem lookup_insert_eq_none {k k' : α} {v : β} :
    (m.insert k v).lookup k' = none ↔ k' ≠ k ∧ m.lookup k' = none := by
  rw [AList.lookup_eq_none, AList.lookup_eq_none, AList.mem_insert, not_or]

/-! ## Sums over the values of a map -/

/-- The sum of the weights of all values. -/
def weigh (f : β → Nat) (m : AList fun _ : α => β) : Nat := (m.entries.map fun e => f e.2).sum

/-- The sum over the entries, with one of them taken out. -/
theorem sum_kerase {f : β → Nat} {value : β} (entries : List (Sigma fun _ : α => β))
    (h : entries.dlookup key = some value) :
    (entries.map fun e => f e.2).sum = f value + ((entries.kerase key).map fun e => f e.2).sum := by
  induction entries with
  | nil => cases h
  | cons e entries ih =>
    obtain ⟨k, v⟩ := e
    by_cases hk : key = k
    · subst hk
      rw [List.dlookup_cons_eq] at h
      have hrest : List.kerase key (⟨key, v⟩ :: entries) = entries := List.kerase_cons_eq rfl
      rw [hrest, List.map_cons, List.sum_cons, Option.some.inj h]
    · rw [List.dlookup_cons_ne _ _ hk] at h
      have hrest : List.kerase key (⟨k, v⟩ :: entries) = ⟨k, v⟩ :: entries.kerase key :=
        List.kerase_cons_ne hk
      rw [hrest, List.map_cons, List.sum_cons, List.map_cons, List.sum_cons, ih h]
      omega

theorem weigh_erase {f : β → Nat} {m : AList fun _ : α => β} {key : α} {value : β}
    (h : m.lookup key = some value) : weigh f m = f value + weigh f (m.erase key) :=
  sum_kerase m.entries h

/-- The weight of the value of a key, if there is one. -/
def weightAt (f : β → Nat) (m : AList fun _ : α => β) (key : α) : Nat :=
  ((m.lookup key).map f).getD 0

theorem weigh_eq_weightAt (f : β → Nat) (m : AList fun _ : α => β) (key : α) :
    weigh f m = weightAt f m key + weigh f (m.erase key) := by
  unfold weightAt
  cases h : m.lookup key with
  | some value => exact weigh_erase h
  | none =>
    have habsent : m.erase key = m := by
      refine AList.ext (List.kerase_of_notMem_keys ?_)
      exact AList.lookup_eq_none.mp h
    rw [habsent, Option.map_none, Option.getD_none, Nat.zero_add]

theorem weigh_insert (f : β → Nat) (m : AList fun _ : α => β) (key : α) (value : β) :
    weigh f (m.insert key value) = f value + weigh f (m.erase key) := rfl

/-- A new key adds the weight of its value. -/
theorem weigh_insert_of_none (f : β → Nat) (h : m.lookup key = none) (value : β) :
    weigh f (m.insert key value) = f value + weigh f m := by
  rw [weigh_insert, weigh_eq_weightAt f m key, weightAt, h]
  exact congrArg (f value + ·) (Nat.zero_add _).symm

/-- A replaced value takes its weight away. -/
theorem weigh_insert_of_some (f : β → Nat) {old : β} (h : m.lookup key = some old) (value : β) :
    weigh f (m.insert key value) + f old = weigh f m + f value := by
  rw [weigh_insert, weigh_erase h]
  omega

theorem weightAt_erase_of_ne (f : β → Nat) (m : AList fun _ : α => β) {key key' : α}
    (h : key' ≠ key) : weightAt f (m.erase key) key' = weightAt f m key' := by
  rw [weightAt, AList.lookup_erase_ne h, weightAt]

/-- Two keys weigh no more than the whole map. -/
theorem weightAt_add_le (f : β → Nat) (m : AList fun _ : α => β) {key key' : α} (h : key' ≠ key) :
    weightAt f m key + weightAt f m key' ≤ weigh f m := by
  rw [weigh_eq_weightAt f m key, weigh_eq_weightAt f (m.erase key) key',
    weightAt_erase_of_ne f m h]
  omega

/-- An inserted value takes the place of what was there. -/
theorem weigh_insert_add_weightAt (f : β → Nat) (m : AList fun _ : α => β) (key : α) (value : β) :
    weigh f (m.insert key value) + weightAt f m key = weigh f m + f value := by
  rw [weigh_insert, weigh_eq_weightAt f m key]
  omega

theorem weigh_eq_zero {f : β → Nat} (h : ∀ key value, m.lookup key = some value → f value = 0) :
    weigh f m = 0 := by
  refine List.sum_eq_zero_iff_forall_eq_nat.mpr fun weight hweight => ?_
  obtain ⟨e, he, rfl⟩ := List.mem_map.mp hweight
  exact h e.1 e.2 (AList.mem_lookup_iff.mpr he)

/-- How many values are selected. -/
def countValues (p : β → Bool) (m : AList fun _ : α => β) : Nat := m.entries.countP fun e => p e.2

omit [DecidableEq α] in
/-- To count values is to weigh them by 0 or 1. -/
theorem countValues_eq_weigh (p : β → Bool) (m : AList fun _ : α => β) :
    countValues p m = weigh (fun value => (p value).toNat) m := by
  rw [countValues, weigh]
  induction m.entries with
  | nil => rfl
  | cons e entries ih =>
    rw [List.countP_cons, List.map_cons, List.sum_cons, ih]
    cases p e.2 with
    | true => exact Nat.add_comm ..
    | false => exact (Nat.zero_add _).symm

/-- Whether the value of a key is there and selected, as a number. -/
def countAt (p : β → Bool) (m : AList fun _ : α => β) (key : α) : Nat :=
  weightAt (fun value => (p value).toNat) m key

theorem countAt_of_none {p : β → Bool} (h : m.lookup key = none) : countAt p m key = 0 := by
  rw [countAt, weightAt, h]
  rfl

theorem countAt_of_some {p : β → Bool} {value : β} (h : m.lookup key = some value) :
    countAt p m key = (p value).toNat := by
  rw [countAt, weightAt, h]
  rfl

theorem countValues_insert (p : β → Bool) (m : AList fun _ : α => β) (key : α) (value : β) :
    countValues p (m.insert key value) + countAt p m key
      = countValues p m + (p value).toNat := by
  rw [countValues_eq_weigh, countValues_eq_weigh]
  exact weigh_insert_add_weightAt ..

theorem countValues_erase (p : β → Bool) (m : AList fun _ : α => β) (key : α) :
    countValues p m = countAt p m key + countValues p (m.erase key) := by
  rw [countValues_eq_weigh, countValues_eq_weigh]
  exact weigh_eq_weightAt ..

/-- One entry goes and another one comes under a key that is free then. -/
theorem countValues_replace (p : β → Bool) {key key' : α} {value : β}
    (hlookup : m.lookup key = some value) (hfree : (m.erase key).lookup key' = none) (value' : β) :
    countValues p ((m.erase key).insert key' value') + (p value).toNat
      = countValues p m + (p value').toNat := by
  have hgone := countValues_erase p m key
  have hcome := countValues_insert p (m.erase key) key' value'
  rw [countAt_of_some hlookup] at hgone
  rw [countAt_of_none hfree] at hcome
  omega

omit [DecidableEq α] in
theorem countValues_true (m : AList fun _ : α => β) :
    countValues (fun _ => true) m = m.entries.length :=
  congrFun List.countP_true m.entries

/-- Fewer values are selected among those that are kept, unless no selected value is dropped. -/
theorem countValues_retain (p : β → Bool) (q : α → β → Bool) (m : AList fun _ : α => β) :
    countValues p (retain q m) ≤ countValues p m ∧
      (countValues p m ≤ countValues p (retain q m) ↔
        ∀ key value, m.lookup key = some value → p value = true → q key value = true) := by
  have hsplit := List.countP_eq_countP_filter_add m.entries (fun e => p e.2) fun e => q e.1 e.2
  have hkept : countValues p (retain q m)
      = (m.entries.filter fun e => q e.1 e.2).countP fun e => p e.2 := rfl
  have hmem : ∀ key value, m.lookup key = some value ↔ ⟨key, value⟩ ∈ m.entries :=
    fun key value => AList.mem_lookup_iff
  unfold countValues at hkept ⊢
  rw [hkept, hsplit]
  refine ⟨Nat.le_add_right .., ?_⟩
  constructor
  · intro hle key value hlookup hp
    by_contra hq
    have hdropped : ⟨key, value⟩ ∈ m.entries.filter fun e => !q e.1 e.2 :=
      List.mem_filter.mpr ⟨(hmem ..).mp hlookup, by simpa using hq⟩
    have := (List.countP_pos_iff (p := fun e => p e.2)).mpr ⟨_, hdropped, hp⟩
    omega
  · intro hall
    have hzero : (m.entries.filter fun e => !q e.1 e.2).countP (fun e => p e.2) = 0 := by
      refine List.countP_eq_zero.mpr fun e he hp => ?_
      obtain ⟨hin, hq⟩ := List.mem_filter.mp he
      rw [hall e.1 e.2 ((hmem ..).mpr hin) hp] at hq
      cases hq
    omega

/-- Collecting changes in one loop and applying them in another is one loop over the
part of the state that they change. -/
theorem foldl_filterMap_part {S C E M : Type} {apply : S → C → S} {change : E → Option C}
    {step : M → E → M} (get : S → M) (put : S → M → S) (hput : ∀ s, put s (get s) = s)
    (hget : ∀ s m, get (put s m) = m) (hputput : ∀ s m m', put (put s m) m' = put s m')
    (hstep : ∀ s e, (change e).elim s (apply s) = put s (step (get s) e)) (entries : List E) :
    ∀ s, (entries.filterMap change).foldl apply s = put s (entries.foldl step (get s)) := by
  induction entries with
  | nil => exact fun s => (hput s).symm
  | cons e entries ih =>
    intro s
    have hone := hstep s e
    rw [List.filterMap_cons, List.foldl_cons]
    cases hc : change e with
    | none =>
      rw [hc] at hone
      have hsame : get s = step (get s) e := (congrArg get hone).trans (hget ..)
      rw [← hsame]
      exact ih s
    | some c =>
      rw [hc] at hone
      have hone : apply s c = put s (step (get s) e) := hone
      dsimp only
      rw [List.foldl_cons, hone, ih, hget, hputput]

end InterBit.Lib
