import InterBit.Mev.BatchAuction

/-!
# The order of a batch

`order_batch_fairly` keeps the groups of a batch sorted by price (`Grouped`), so that the groups in
reverse are sorted by falling price, whatever the order inside a group. What comes back is then the
transactions of a permutation of the orders without a lower bid before a higher one.
-/

namespace InterBit.Mev

/-- No lower bid comes before a higher one. -/
def FallingBids (orders : List BatchOrder) : Prop :=
  orders.Pairwise fun first later => later.bidPrice ≤ first.bidPrice

/-- The groups are sorted by price, and the orders of a group have its price. -/
structure Grouped (groups : List (U256 × List BatchOrder)) : Prop where
  rising : groups.Pairwise fun low high => low.1 < high.1
  priced : ∀ g ∈ groups, ∀ order ∈ g.2, order.bidPrice = g.1

theorem grouped_nil : Grouped [] := ⟨.nil, fun _ h => absurd h List.not_mem_nil⟩

variable {groups : List (U256 × List BatchOrder)}

/-- A group keeps its place, and a new one has the price of the order. -/
theorem price_of_mem_pushPrice {order : BatchOrder} {g : U256 × List BatchOrder}
    (h : g ∈ pushPrice order groups) :
    g.1 = order.bidPrice ∨ ∃ old ∈ groups, old.1 = g.1 := by
  induction groups with
  | nil =>
    rw [List.mem_singleton.mp h]
    exact Or.inl rfl
  | cons head groups ih =>
    obtain ⟨price, group⟩ := head
    unfold pushPrice at h
    split at h
    next hprice =>
      rcases List.mem_cons.mp h with rfl | h
      · exact Or.inl hprice.symm
      · exact Or.inr ⟨g, List.mem_cons_of_mem _ h, rfl⟩
    next =>
      split at h
      next =>
        rcases List.mem_cons.mp h with rfl | h
        · exact Or.inl rfl
        · exact Or.inr ⟨g, h, rfl⟩
      next =>
        rcases List.mem_cons.mp h with rfl | h
        · exact Or.inr ⟨_, List.mem_cons_self, rfl⟩
        · rcases ih h with hnew | ⟨old, hold, heq⟩
          · exact Or.inl hnew
          · exact Or.inr ⟨old, List.mem_cons_of_mem _ hold, heq⟩

theorem Grouped.pushPrice (h : Grouped groups) (order : BatchOrder) :
    Grouped (pushPrice order groups) := by
  induction groups with
  | nil =>
    refine ⟨List.pairwise_singleton .., fun g hg o ho => ?_⟩
    rw [List.mem_singleton.mp hg] at ho ⊢
    rw [List.mem_singleton.mp ho]
  | cons head groups ih =>
    obtain ⟨price, group⟩ := head
    obtain ⟨hhead, hrest⟩ := List.pairwise_cons.mp h.rising
    have hpriced : ∀ g ∈ groups, ∀ o ∈ g.2, o.bidPrice = g.1 :=
      fun g hg => h.priced g (List.mem_cons_of_mem _ hg)
    have hgroup : ∀ o ∈ group, o.bidPrice = price := h.priced _ List.mem_cons_self
    unfold Mev.pushPrice
    split
    next hprice =>
      -- the order joins the group at its end
      refine ⟨List.pairwise_cons.mpr ⟨hhead, hrest⟩, fun g hg o ho => ?_⟩
      rcases List.mem_cons.mp hg with rfl | hg
      · rcases List.mem_append.mp ho with ho | ho
        · exact hgroup o ho
        · rw [List.mem_singleton.mp ho]
          exact hprice
      · exact hpriced g hg o ho
    next hne =>
      split
      next hlt =>
        -- a group of its own, in front
        refine ⟨List.pairwise_cons.mpr ⟨fun g hg => ?_, h.rising⟩, fun g hg o ho => ?_⟩
        · rcases List.mem_cons.mp hg with rfl | hg
          · exact hlt
          · exact BitVec.lt_trans hlt (hhead g hg)
        · rcases List.mem_cons.mp hg with rfl | hg
          · rw [List.mem_singleton.mp ho]
          · exact h.priced g hg o ho
      next hge =>
        have ih := ih ⟨hrest, hpriced⟩
        have hlt : price < order.bidPrice :=
          BitVec.lt_of_le_ne (BitVec.not_lt.mp hge) fun heq => hne heq.symm
        refine ⟨List.pairwise_cons.mpr ⟨fun g hg => ?_, ih.rising⟩, fun g hg o ho => ?_⟩
        · rcases price_of_mem_pushPrice hg with hnew | ⟨old, hold, heq⟩
          · exact hnew ▸ hlt
          · exact heq ▸ hhead old hold
        · rcases List.mem_cons.mp hg with rfl | hg
          · exact hgroup o ho
          · exact ih.priced g hg o ho

theorem Grouped.foldl (h : Grouped groups) (orders : List BatchOrder) :
    Grouped (orders.foldl (fun groups order => Mev.pushPrice order groups) groups) := by
  induction orders generalizing groups with
  | nil => exact h
  | cons order orders ih => exact ih (h.pushPrice order)

/-- The groups from the highest price to the lowest, in any order inside. -/
theorem Grouped.fallingBids (h : Grouped groups) {arrange : List BatchOrder → List BatchOrder}
    (harrange : ∀ group, (arrange group).Perm group) :
    FallingBids (groups.reverse.flatMap fun g => arrange g.2) := by
  have hpriced : ∀ g ∈ groups, ∀ order ∈ arrange g.2, order.bidPrice = g.1 :=
    fun g hg order horder => h.priced g hg order ((harrange g.2).mem_iff.mp horder)
  refine List.pairwise_flatMap.mpr ⟨fun g hg => ?_, ?_⟩
  · have hg := List.mem_reverse.mp hg
    refine List.pairwise_of_forall_mem_list fun first hfirst later hlater => ?_
    rw [hpriced g hg first hfirst, hpriced g hg later hlater]
    exact BitVec.le_refl _
  · refine List.pairwise_reverse.mpr (h.rising.imp_of_mem fun hlow hhigh hlt => ?_)
    intro first hfirst later hlater
    rw [hpriced _ hhigh first hfirst, hpriced _ hlow later hlater]
    exact BitVec.le_of_lt hlt

/-- What is returned for a batch, in both settings, is the transactions of a permutation of its
orders, in which the bids fall. -/
theorem orderBatchFairly_fallingBids (env : AuctionEnv) (fairOrderingEnabled : Bool)
    (batch : Batch) :
    (orderBatchFairly env fairOrderingEnabled batch).Perm (batch.orders.map (·.tx)) ∧
      ∃ orders, orders.Perm batch.orders ∧ FallingBids orders ∧
        orderBatchFairly env fairOrderingEnabled batch = orders.map (·.tx) := by
  refine ⟨orderBatchFairly_perm env _ batch, ?_⟩
  unfold orderBatchFairly
  split
  next =>
    refine ⟨_, ?_, (grouped_nil.foldl batch.orders).fallingBids (shuffleGroup_perm env), rfl⟩
    refine List.Perm.trans ?_ (priceGroups_perm batch.orders [])
    refine List.Perm.trans ?_ ((List.reverse_perm _).flatMap_right _)
    exact List.Perm.flatMap_left _ fun g _ => shuffleGroup_perm env g.2
  next =>
    refine ⟨_, List.mergeSort_perm _ _, ?_, rfl⟩
    refine (List.pairwise_mergeSort (fun a b c hab hbc => ?_) (fun a b => ?_) batch.orders).imp
      fun h => of_decide_eq_true h
    · exact decide_eq_true (BitVec.le_trans (of_decide_eq_true hbc) (of_decide_eq_true hab))
    · rw [Bool.or_eq_true, decide_eq_true_iff, decide_eq_true_iff]
      exact BitVec.le_total _ _

end InterBit.Mev
