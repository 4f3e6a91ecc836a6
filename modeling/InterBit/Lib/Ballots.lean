import Mathlib.Data.List.AList

/-!
# Votes in ballot boxes

A node that counts votes keeps a list of them for each subject, and acts when a list is
long enough. The length says how often somebody has voted. That it says how many members
have voted takes three things of each vote that is put in: it is genuine, a member has
cast it, and this member has none in the box yet. `Tallied` is this invariant, and
`Tally.quorum` is what it is for.
-/

namespace InterBit.Lib

variable {K V B : Type}

/-- At least `k` distinct members have voted. -/
def Quorum (members : List V) (voted : V → Prop) (k : Nat) : Prop :=
  ∃ voters : List V, voters.Nodup ∧ voters ⊆ members ∧ (∀ v ∈ voters, voted v) ∧ k ≤ voters.length

theorem Quorum.mono {members : List V} {voted voted' : V → Prop} {k : Nat}
    (h : Quorum members voted k) (himp : ∀ v, voted v → voted' v) : Quorum members voted' k := by
  obtain ⟨voters, hnodup, hsub, hvoted, hlen⟩ := h
  exact ⟨voters, hnodup, hsub, fun v hv => himp v (hvoted v hv), hlen⟩

/-- There are not more voters than there are. -/
theorem Quorum.le_length {members : List V} {voted : V → Prop} {k : Nat} (h : Quorum members voted k)
    {voters : List V} (hvoters : ∀ v, voted v → v ∈ voters) : k ≤ voters.length := by
  obtain ⟨some, hnodup, _, hvoted, hlen⟩ := h
  have hsub : some ⊆ voters := fun v hv => hvoters v (hvoted v hv)
  exact Nat.le_trans hlen (List.subperm_of_subset hnodup hsub).length_le

/-- A list of genuine votes of members, none of whom occurs twice. -/
structure Tally (members : List V) (voter : B → V) (genuine : B → Prop) (votes : List B) :
    Prop where
  distinct : (votes.map voter).Nodup
  member : ∀ b ∈ votes, voter b ∈ members
  cast : ∀ b ∈ votes, genuine b

namespace Tally

variable {members : List V} {voter : B → V} {genuine genuine' : B → Prop} {votes : List B}

theorem nil : Tally members voter genuine [] :=
  ⟨List.nodup_nil, fun _ h => (nomatch h), fun _ h => nomatch h⟩

/-- One more vote. -/
theorem concat (h : Tally members voter genuine votes) {b : B} (hmember : voter b ∈ members)
    (hgenuine : genuine b) (hnew : voter b ∉ votes.map voter) :
    Tally members voter genuine (votes ++ [b]) where
  distinct := by
    rw [List.map_append, List.map_singleton, ← List.concat_eq_append]
    exact h.distinct.concat hnew
  member c hc := by
    rcases List.mem_append.mp hc with hc | hc
    · exact h.member c hc
    · exact List.mem_singleton.mp hc ▸ hmember
  cast c hc := by
    rcases List.mem_append.mp hc with hc | hc
    · exact h.cast c hc
    · exact List.mem_singleton.mp hc ▸ hgenuine

theorem mono (h : Tally members voter genuine votes) (himp : ∀ b, genuine b → genuine' b) :
    Tally members voter genuine' votes :=
  ⟨h.distinct, h.member, fun b hb => himp b (h.cast b hb)⟩

theorem sublist (h : Tally members voter genuine votes) {some : List B} (hsub : some.Sublist votes) :
    Tally members voter genuine some :=
  ⟨h.distinct.sublist (hsub.map _), fun b hb => h.member b (hsub.subset hb),
    fun b hb => h.cast b (hsub.subset hb)⟩

/-- As many votes as it takes are as many voters. -/
theorem quorum (h : Tally members voter genuine votes) {voted : V → Prop} {k : Nat}
    (hk : k ≤ votes.length) (hvoted : ∀ b ∈ votes, genuine b → voted (voter b)) :
    Quorum members voted k := by
  refine ⟨votes.map voter, h.distinct, fun v hv => ?_, fun v hv => ?_, ?_⟩
  · obtain ⟨b, hb, rfl⟩ := List.mem_map.mp hv
    exact h.member b hb
  · obtain ⟨b, hb, rfl⟩ := List.mem_map.mp hv
    exact hvoted b hb (h.cast b hb)
  · rw [List.length_map]
    exact hk

end Tally

variable [DecidableEq K]

/-- The votes on a subject. -/
def bucket (boxes : AList fun _ : K => List B) (key : K) : List B := (boxes.lookup key).getD []

/-- `entry(key).or_insert_with(Vec::new).push(vote)`. -/
def pushVote (boxes : AList fun _ : K => List B) (key : K) (b : B) : AList fun _ : K => List B :=
  boxes.insert key (bucket boxes key ++ [b])

@[simp] theorem bucket_pushVote (boxes : AList fun _ : K => List B) (key : K) (b : B) :
    bucket (pushVote boxes key b) key = bucket boxes key ++ [b] := by
  rw [bucket, pushVote, AList.lookup_insert, Option.getD_some]

theorem bucket_pushVote_of_ne (boxes : AList fun _ : K => List B) {key key' : K} (b : B)
    (h : key' ≠ key) : bucket (pushVote boxes key b) key' = bucket boxes key' := by
  rw [bucket, pushVote, AList.lookup_insert_ne h, bucket]

/-- Put each of the votes into the box of its subject. -/
def pushAll (boxes : AList fun _ : K => List B) (keyOf : B → K) (votes : List B) :
    AList fun _ : K => List B :=
  votes.foldl (fun boxes b => pushVote boxes (keyOf b) b) boxes

theorem bucket_pushAll (boxes : AList fun _ : K => List B) (keyOf : B → K) (votes : List B)
    (key : K) :
    bucket (pushAll boxes keyOf votes) key = bucket boxes key ++ votes.filter (keyOf · = key) := by
  induction votes generalizing boxes with
  | nil => exact (List.append_nil _).symm
  | cons b votes ih =>
    rw [pushAll, List.foldl_cons]
    refine (ih (pushVote boxes (keyOf b) b)).trans ?_
    by_cases hkey : keyOf b = key
    · rw [List.filter_cons, if_pos (decide_eq_true hkey), ← hkey, bucket_pushVote,
        List.append_assoc, List.singleton_append]
    · rw [List.filter_cons, if_neg (by simpa using hkey),
        bucket_pushVote_of_ne _ _ (Ne.symm hkey)]

/-- Every box has a tally. -/
def Tallied (members : List V) (voter : B → V) (genuine : K → B → Prop)
    (boxes : AList fun _ : K => List B) : Prop :=
  ∀ key, Tally members voter (genuine key) (bucket boxes key)

namespace Tallied

variable {members : List V} {voter : B → V} {genuine genuine' : K → B → Prop}
  {boxes : AList fun _ : K => List B}

theorem empty : Tallied members voter genuine (∅ : AList fun _ : K => List B) :=
  fun _ => .nil

theorem mono (h : Tallied members voter genuine boxes)
    (himp : ∀ key b, genuine key b → genuine' key b) : Tallied members voter genuine' boxes :=
  fun key => (h key).mono (himp key)

theorem pushVote (h : Tallied members voter genuine boxes) {key : K} {b : B}
    (hmember : voter b ∈ members) (hgenuine : genuine key b)
    (hnew : voter b ∉ (bucket boxes key).map voter) :
    Tallied members voter genuine (pushVote boxes key b) := by
  intro key'
  by_cases hkey : key' = key
  · subst hkey
    rw [bucket_pushVote]
    exact (h key').concat hmember hgenuine hnew
  · rw [bucket_pushVote_of_ne _ _ hkey]
    exact h key'

end Tallied

end InterBit.Lib
