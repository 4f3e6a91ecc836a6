import Mathlib.Logic.Function.Basic

/-!
# What a radix tree holds

A radix tree files values under words. `Entries` is what such a tree means, the relation between
the words and their values, built up as the tree is: `atEnd` is a leaf with nothing left to read,
`below` a compressed path, `fork` a node that looks at the next letter. `set` is the meaning of an
insertion, and `set_below_shared` and the three `set_` laws after it say what has to be built where
a new word leaves an old path.
-/

namespace InterBit.Lib

/-- Words and their values. -/
abbrev Entries (α V : Type) := List α → V → Prop

namespace Entries

variable {α V : Type}

/-- One value, with nothing left to read. -/
def atEnd (value : V) : Entries α V := fun word v => word = [] ∧ v = value

/-- The entries after a path. -/
def below (path : List α) (entries : Entries α V) : Entries α V :=
  fun word v => ∃ rest, word = path ++ rest ∧ entries rest v

/-- A value for the empty word, and entries for each first letter. -/
def fork (value : Option V) (slots : α → Entries α V) : Entries α V
  | [], v => value = some v
  | letter :: rest, v => slots letter rest v

/-- The entries with a new value for a word. -/
def set (word : List α) (value : V) (entries : Entries α V) : Entries α V :=
  fun word' v => word' = word ∧ v = value ∨ word' ≠ word ∧ entries word' v

/-- No slot has an entry. -/
def noSlots : α → Entries α V := fun _ _ _ => False

/-- The entries after a path, entered into the slot of its first letter. -/
def place [DecidableEq α] (path : List α) (entries : Entries α V) (slots : α → Entries α V) :
    α → Entries α V :=
  match path with
  | [] => slots
  | letter :: rest => Function.update slots letter (below rest entries)

theorem ext {m m' : Entries α V} (h : ∀ word v, m word v ↔ m' word v) : m = m' :=
  funext fun word => funext fun v => propext (h word v)

theorem set_iff {word word' : List α} {value v : V} {m : Entries α V} :
    set word value m word' v ↔ word' = word ∧ v = value ∨ word' ≠ word ∧ m word' v := Iff.rfl

theorem fork_nil {value : Option V} {slots : α → Entries α V} {v : V} :
    fork value slots [] v ↔ value = some v := Iff.rfl

theorem fork_cons {value : Option V} {slots : α → Entries α V} {letter : α} {word : List α}
    {v : V} : fork value slots (letter :: word) v ↔ slots letter word v := Iff.rfl

theorem below_atEnd {path word : List α} {value v : V} :
    below path (atEnd value) word v ↔ word = path ∧ v = value := by
  constructor
  · rintro ⟨_, rfl, rfl, rfl⟩
    exact ⟨List.append_nil path, rfl⟩
  · rintro ⟨rfl, rfl⟩
    exact ⟨[], (List.append_nil word).symm, rfl, rfl⟩

@[simp] theorem below_nil (m : Entries α V) : below [] m = m := by
  refine ext fun word v => ?_
  constructor
  · rintro ⟨rest, rfl, h⟩
    exact h
  · exact fun h => ⟨word, rfl, h⟩

/-- Two paths in a row are one. -/
theorem below_append (path path' : List α) (m : Entries α V) :
    below (path ++ path') m = below path (below path' m) := by
  refine ext fun word v => ?_
  constructor
  · rintro ⟨rest, rfl, h⟩
    exact ⟨path' ++ rest, List.append_assoc .., rest, rfl, h⟩
  · rintro ⟨_, rfl, rest, rfl, h⟩
    exact ⟨rest, (List.append_assoc ..).symm, h⟩

/-- A path and its first letter. -/
theorem below_cons_iff {letter : α} {path : List α} {m : Entries α V} {letter' : α}
    {word : List α} {v : V} :
    below (letter :: path) m (letter' :: word) v ↔ letter' = letter ∧ below path m word v := by
  constructor
  · rintro ⟨rest, hword, h⟩
    obtain ⟨rfl, rfl⟩ := List.cons.inj hword
    exact ⟨rfl, rest, rfl, h⟩
  · rintro ⟨rfl, rest, rfl, h⟩
    exact ⟨rest, rfl, h⟩

theorem not_below_nil {letter : α} {path : List α} {m : Entries α V} {v : V} :
    ¬ below (letter :: path) m [] v := by
  rintro ⟨rest, hword, _⟩
  cases hword

/-- The entries of a branch determine its value. -/
theorem fork_injective {value value' : Option V} {slots : α → Entries α V}
    (h : fork value slots = fork value' slots) : value = value' := by
  have hend : ∀ v, value = some v ↔ value' = some v := fun v => iff_of_eq (congrFun₂ h [] v)
  cases value with
  | none =>
    cases value' with
    | none => rfl
    | some v => exact absurd ((hend v).mpr rfl) (Option.some_ne_none v).symm
  | some v => exact ((hend v).mp rfl).symm

/-- Entries can be told apart below a path. -/
theorem below_injective {path : List α} {m m' : Entries α V} (h : below path m = below path m') :
    m = m' := by
  refine ext fun word v => ?_
  have hword := iff_of_eq (congrFun₂ h (path ++ word) v)
  constructor
  · intro hm
    obtain ⟨rest, hrest, h'⟩ := hword.mp ⟨word, rfl, hm⟩
    rwa [List.append_cancel_left hrest]
  · intro hm
    obtain ⟨rest, hrest, h'⟩ := hword.mpr ⟨word, rfl, hm⟩
    rwa [List.append_cancel_left hrest]

/-! ## Setting a word that leaves a path -/

/-- What the new word shares with the path stays a path. -/
theorem set_below_shared (shared word : List α) (value : V) (m : Entries α V) :
    set (shared ++ word) value (below shared m) = below shared (set word value m) := by
  refine ext fun word' v => ?_
  constructor
  · rintro (⟨rfl, rfl⟩ | ⟨hne, rest, rfl, h⟩)
    · exact ⟨word, rfl, Or.inl ⟨rfl, rfl⟩⟩
    · exact ⟨rest, rfl, Or.inr ⟨fun he => hne (he ▸ rfl), h⟩⟩
  · rintro ⟨rest, rfl, ⟨rfl, rfl⟩ | ⟨hne, h⟩⟩
    · exact Or.inl ⟨rfl, rfl⟩
    · exact Or.inr ⟨fun he => hne (List.append_cancel_left he), rest, rfl, h⟩

section Place

variable [DecidableEq α]

theorem place_self {letter : α} {path : List α} {m : Entries α V} {slots : α → Entries α V} :
    place (letter :: path) m slots letter = below path m := Function.update_self ..

theorem place_of_ne {letter letter' : α} (hne : letter' ≠ letter) {path : List α}
    {m : Entries α V} {slots : α → Entries α V} :
    place (letter :: path) m slots letter' = slots letter' := Function.update_of_ne hne ..

/-- The new word ends where the path goes on: its value is that of the fork. -/
theorem set_nil_below (value : V) (letter : α) (path : List α) (m : Entries α V) :
    set [] value (below (letter :: path) m)
      = fork (some value) (place (letter :: path) m noSlots) := by
  refine ext fun word v => ?_
  cases word with
  | nil =>
    rw [set_iff, fork_nil, Option.some.injEq, eq_comm (a := value)]
    exact ⟨fun h => h.elim And.right fun h => absurd rfl h.1, fun h => Or.inl ⟨rfl, h⟩⟩
  | cons letter' word =>
    rw [set_iff, fork_cons, below_cons_iff]
    by_cases hletter : letter' = letter
    · subst hletter
      rw [place_self]
      exact ⟨fun h => h.elim (fun h => nomatch h.1) fun h => h.2.2,
        fun h => Or.inr ⟨List.cons_ne_nil _ _, rfl, h⟩⟩
    · rw [place_of_ne hletter]
      exact ⟨fun h => h.elim (fun h => nomatch h.1) fun h => hletter h.2.1, False.elim⟩

/-- The new word goes on where there is a value: the value is that of the fork. -/
theorem set_cons_atEnd (letter : α) (word : List α) (value old : V) :
    set (letter :: word) value (atEnd old)
      = fork (some old) (place (letter :: word) (atEnd value) noSlots) := by
  refine ext fun word' v => ?_
  cases word' with
  | nil =>
    rw [set_iff, fork_nil, Option.some.injEq, eq_comm (a := old)]
    exact ⟨fun h => h.elim (fun h => (nomatch h.1)) fun h => h.2.2,
      fun h => Or.inr ⟨(List.cons_ne_nil _ _).symm, rfl, h⟩⟩
  | cons letter' word' =>
    rw [set_iff, fork_cons]
    by_cases hletter : letter' = letter
    · subst hletter
      rw [place_self, below_atEnd, List.cons.injEq, eq_self_iff_true, true_and]
      exact ⟨fun h => h.elim id fun h => (nomatch h.2.1), Or.inl⟩
    · rw [place_of_ne hletter]
      exact ⟨fun h => h.elim (fun h => hletter (List.cons.inj h.1).1) fun h => (nomatch h.2.1),
        False.elim⟩

/-- The new word and the path go on with different letters: the fork has no value. -/
theorem set_cons_below {letter letter' : α} (hne : letter ≠ letter') (word path : List α)
    (value : V) (m : Entries α V) :
    set (letter :: word) value (below (letter' :: path) m)
      = fork none (place (letter' :: path) m (place (letter :: word) (atEnd value) noSlots)) := by
  refine ext fun word' v => ?_
  cases word' with
  | nil =>
    rw [set_iff, fork_nil]
    exact ⟨fun h => h.elim (fun h => nomatch h.1) fun h => (not_below_nil h.2).elim,
      fun h => nomatch h⟩
  | cons first word' =>
    rw [set_iff, fork_cons, below_cons_iff, List.cons.injEq]
    by_cases hpath : first = letter'
    · have hword : first ≠ letter := fun he => hne (he.symm.trans hpath)
      rw [hpath, place_self]
      exact ⟨fun h => h.elim (fun h => absurd h.1.1 (hpath ▸ hword)) fun h => h.2.2,
        fun h => Or.inr ⟨fun he => hne (List.cons.inj he).1.symm, rfl, h⟩⟩
    · rw [place_of_ne hpath]
      by_cases hword : first = letter
      · rw [hword, place_self, below_atEnd]
        exact ⟨fun h => h.elim (fun h => ⟨h.1.2, h.2⟩) fun h => absurd h.2.1 (hword ▸ hpath),
          fun h => Or.inl ⟨⟨rfl, h.1⟩, h.2⟩⟩
      · rw [place_of_ne hword]
        exact ⟨fun h => h.elim (fun h => hword h.1.1) fun h => hpath h.2.1, False.elim⟩

end Place

end Entries

end InterBit.Lib
