import InterBit.Layer2.DataAvailability
import Mathlib.Data.List.Flatten

/-!
# What comes back out of the shards

The data shards are ranges that follow one another, so put together again in order they are the
data; the decoder does nothing else. Hence `roundTrips_iff`: what is stored comes back, unless it is
of one of the three lengths whose last range begins after the end. And `recovers_iff`: with shards
missing, the decoder gives the data back exactly if nothing is missing that is not empty.
-/

namespace InterBit.Layer2

/-! ## Lists -/

/-- Ranges that follow one another. -/
theorem flatMap_ranges (data : List UInt8) (size n : Nat) :
    (List.range n).flatMap (fun i => (data.take (i * size + size)).drop (i * size))
      = data.take (n * size) := by
  induction n with
  | zero => rw [Nat.zero_mul, List.take_zero, List.range_zero, List.flatMap_nil]
  | succ n ih =>
    have hle : n * size ≤ n * size + size := Nat.le_add_right ..
    have hfirst : data.take (n * size) = (data.take (n * size + size)).take (n * size) := by
      rw [List.take_take, Nat.min_eq_left hle]
    rw [List.range_succ, List.flatMap_append, ih, List.flatMap_singleton, hfirst,
      List.take_append_drop, Nat.succ_mul]

/-- Leaving elements out changes nothing exactly if they contribute nothing. -/
theorem flatMap_filter_eq_iff {α β : Type} (f : α → List β) (p : α → Bool) (l : List α) :
    (l.filter p).flatMap f = l.flatMap f ↔ ∀ a ∈ l, p a = false → f a = [] := by
  have hle : ∀ l : List α, ((l.filter p).flatMap f).length ≤ (l.flatMap f).length :=
    fun l => (List.filter_sublist.flatMap f).length_le
  induction l with
  | nil => exact iff_of_true rfl fun _ hmem => nomatch hmem
  | cons a l ih =>
    rw [List.forall_mem_cons, List.flatMap_cons, List.filter_cons]
    cases hp : p a with
    | true =>
      rw [if_pos rfl, List.flatMap_cons, List.append_right_inj]
      exact ih.trans (and_iff_right fun hfalse => nomatch hfalse).symm
    | false =>
      rw [if_neg Bool.false_ne_true]
      constructor
      · intro heq
        have hlength := congrArg List.length heq
        rw [List.length_append] at hlength
        have hshorter := hle l
        have hnil : f a = [] := List.length_eq_zero_iff.mp (by omega)
        rw [hnil, List.nil_append] at heq
        exact ⟨fun _ => hnil, ih.mp heq⟩
      · rintro ⟨hnil, hrest⟩
        rw [hnil rfl, List.nil_append, ih.mpr hrest]

/-! ## Encoding -/

namespace ErasureCoder

variable {coder : ErasureCoder}

/-- A data shard that begins inside the data. -/
def cut (coder : ErasureCoder) (data : List UInt8) (i : Nat) : DataShard :=
  ⟨i, (data.take (i * coder.shardSize data.length + coder.shardSize data.length)).drop
    (i * coder.shardSize data.length), false⟩

/-- The data shards. -/
def cuts (coder : ErasureCoder) (data : List UInt8) : List DataShard :=
  (List.range coder.dataShards).map (coder.cut data)

/-- No data shard begins after the end of the data. -/
def Cuttable (coder : ErasureCoder) (length : Nat) : Prop :=
  ∀ i ∈ List.range coder.dataShards, i * coder.shardSize length ≤ length

instance (coder : ErasureCoder) (length : Nat) : Decidable (coder.Cuttable length) :=
  inferInstanceAs (Decidable (∀ i ∈ List.range _, _))

theorem dataShard_eq (data : List UInt8) (i : Nat) : coder.dataShard data i =
    if i * coder.shardSize data.length ≤ data.length then some (coder.cut data i) else none := by
  unfold dataShard slice cut
  dsimp only
  generalize coder.shardSize data.length = size
  by_cases hle : i * size ≤ data.length
  · rw [if_pos hle, if_pos ⟨by omega, Nat.min_le_right ..⟩]
    dsimp only
    rw [← List.take_take, List.take_length]
  · rw [if_neg hle, if_neg (by omega)]

/-- All shards are cut, or some start lies behind the data. -/
theorem mapM_dataShard (data : List UInt8) (is : List Nat) : is.mapM (coder.dataShard data) =
    if ∀ i ∈ is, i * coder.shardSize data.length ≤ data.length then some (is.map (coder.cut data))
    else none := by
  induction is with
  | nil => rfl
  | cons i is ih =>
    rw [List.mapM_cons, ih, dataShard_eq, List.map_cons]
    by_cases hhead : i * coder.shardSize data.length ≤ data.length
    · rw [if_pos hhead]
      simp only [List.forall_mem_cons, hhead, true_and]
      split <;> rfl
    · have hnone : ¬ ∀ j ∈ i :: is, j * coder.shardSize data.length ≤ data.length :=
        fun hall => hhead (hall i (List.mem_cons_self ..))
      rw [if_neg hhead, if_neg hnone]
      rfl

/-- The parity shards come after the data shards. -/
theorem foldl_pushParity (is : List Nat) : ∀ shards : List DataShard, ∃ parity,
    is.foldl coder.pushParity shards = shards ++ parity ∧ parity.length = is.length ∧
      ∀ shard ∈ parity, shard.parity = true := by
  induction is with
  | nil => exact fun shards => ⟨[], (List.append_nil _).symm, rfl, fun _ hmem => nomatch hmem⟩
  | cons i is ih =>
    intro shards
    obtain ⟨parity, heq, hlength, hall⟩ := ih (coder.pushParity shards i)
    refine ⟨⟨coder.dataShards + i, generateParity shards i, true⟩ :: parity, ?_, ?_, ?_⟩
    · rw [List.foldl_cons, heq, pushParity, List.append_assoc, List.singleton_append]
    · rw [List.length_cons, hlength, List.length_cons]
    · exact List.forall_mem_cons.mpr ⟨rfl, hall⟩

/-- Encoding panics, or gives the data shards and then the parity shards. -/
theorem encode_spec (hpos : coder.dataShards ≠ 0) (data : List UInt8) :
    (¬ coder.Cuttable data.length ∧ coder.encode data = none) ∨
      coder.Cuttable data.length ∧ ∃ parity,
        coder.encode data = some (.ok (coder.cuts data ++ parity)) ∧
        parity.length = coder.parityShards ∧ ∀ shard ∈ parity, shard.parity = true := by
  unfold encode
  rw [if_neg hpos, mapM_dataShard]
  by_cases hcut : coder.Cuttable data.length
  · obtain ⟨parity, heq, hlength, hall⟩ :=
      @foldl_pushParity coder (List.range coder.parityShards) (coder.cuts data)
    refine Or.inr ⟨hcut, parity, ?_, hlength.trans List.length_range, hall⟩
    rw [if_pos (show ∀ i ∈ List.range coder.dataShards, _ from hcut)]
    dsimp only
    rw [← heq]
    rfl
  · refine Or.inl ⟨hcut, ?_⟩
    rw [if_neg (show ¬ ∀ i ∈ List.range coder.dataShards, _ from hcut)]

/-- The shards together are the data. -/
theorem flatMap_cuts (hpos : coder.dataShards ≠ 0) (data : List UInt8) :
    (coder.cuts data).flatMap (·.data) = data := by
  rw [cuts, List.flatMap_map]
  refine (flatMap_ranges data (coder.shardSize data.length) coder.dataShards).trans ?_
  refine List.take_of_length_le ?_
  have hdiv := Nat.div_add_mod (data.length + coder.dataShards - 1) coder.dataShards
  have hmod := Nat.mod_lt (data.length + coder.dataShards - 1) (Nat.pos_of_ne_zero hpos)
  rw [shardSize]
  omega

variable {data : List UInt8}

theorem parity_cuts {shard : DataShard} (h : shard ∈ coder.cuts data) : shard.parity = false := by
  obtain ⟨i, _, rfl⟩ := List.mem_map.mp h
  rfl

/-- The data shards are in order. -/
theorem pairwise_cuts (data : List UInt8) :
    (coder.cuts data).Pairwise fun a b => a.index < b.index :=
  List.pairwise_map.mpr List.pairwise_lt_range

theorem cuttable_standard_iff (length : Nat) :
    standard.Cuttable length ↔ length ≠ 1 ∧ length ≠ 2 ∧ length ≠ 5 := by
  have hsize : standard.shardSize length = (length + 3) / 4 := rfl
  unfold Cuttable
  rw [hsize]
  constructor
  · intro h
    have hlast := h 3 (by decide)
    omega
  · intro h i hi
    have hlt : i < 4 := List.mem_range.mp hi
    have hmul : i * ((length + 3) / 4) ≤ 3 * ((length + 3) / 4) :=
      Nat.mul_le_mul_right _ (by omega)
    omega

/-! ## Decoding -/

theorem eq_cut {shard : DataShard} (h : shard ∈ coder.cuts data) :
    shard = coder.cut data shard.index := by
  obtain ⟨i, _, rfl⟩ := List.mem_map.mp h
  rfl

/-- What is decoded of some of the shards: the data shards among them, in order. -/
theorem decode_of_subperm {parity chosen : List DataShard}
    (hparity : ∀ shard ∈ parity, shard.parity = true)
    (hsub : chosen.Subperm (coder.cuts data ++ parity)) :
    coder.decode chosen = .ok (((coder.cuts data).filter (· ∈ chosen)).flatMap (·.data)) := by
  -- parity shards are thrown away before the shards are put together
  have hcuts : (coder.cuts data ++ parity).filter (!·.parity) = coder.cuts data := by
    rw [List.filter_append, List.filter_eq_self.mpr fun shard hmem => by rw [parity_cuts hmem]; rfl,
      List.filter_eq_nil_iff.mpr fun shard hmem => by rw [hparity shard hmem]; decide,
      List.append_nil]
  have hnodup : (coder.cuts data).Nodup :=
    (pairwise_cuts data).imp fun hlt heq => Nat.ne_of_lt hlt (congrArg DataShard.index heq)
  have hchosen : (chosen.filter (!·.parity)).Subperm (coder.cuts data) :=
    hcuts ▸ hsub.filter (!·.parity)
  have hperm : (chosen.filter (!·.parity)).Perm ((coder.cuts data).filter (· ∈ chosen)) := by
    refine (List.perm_ext_iff_of_nodup ?_ (hnodup.filter _)).mpr fun shard => ?_
    · obtain ⟨kept, hkept, hsublist⟩ := hchosen
      exact hkept.nodup_iff.mp (hnodup.sublist hsublist)
    · rw [List.mem_filter, List.mem_filter, decide_eq_true_iff]
      constructor
      · intro h
        exact ⟨hchosen.subset (List.mem_filter.mpr h), h.1⟩
      · intro h
        exact ⟨h.2, by rw [parity_cuts h.1]; rfl⟩
  have htotal : Std.Total fun a b : DataShard => a.index ≤ b.index := ⟨fun a b => Nat.le_total ..⟩
  have htrans : IsTrans DataShard fun a b => a.index ≤ b.index := ⟨fun _ _ _ => Nat.le_trans⟩
  -- indices are different, so the sorted list is the one in the order of the cuts
  have hsorted : (chosen.filter (!·.parity)).insertionSort (fun a b => a.index ≤ b.index)
      = (coder.cuts data).filter (· ∈ chosen) := by
    have hinsertion := (List.perm_insertionSort (fun a b : DataShard => a.index ≤ b.index)
      (chosen.filter (!·.parity))).trans hperm
    refine List.Perm.eq_of_pairwise ?_ (List.pairwise_insertionSort _ _)
      (((pairwise_cuts data).filter _).imp Nat.le_of_lt) hinsertion
    intro a b ha hb hab hba
    have ha := (List.mem_filter.mp (hinsertion.mem_iff.mp ha)).1
    have hb := (List.mem_filter.mp hb).1
    rw [eq_cut ha, eq_cut hb, Nat.le_antisymm hab hba]
  rw [decode, hsorted]

theorem forall_data_iff {parity : List DataShard} {q : DataShard → Prop}
    (hparity : ∀ shard ∈ parity, shard.parity = true) :
    (∀ shard ∈ coder.cuts data ++ parity, shard.parity = false → q shard) ↔
      ∀ shard ∈ coder.cuts data, q shard := by
  constructor
  · exact fun h shard hmem => h shard (List.mem_append_left _ hmem) (parity_cuts hmem)
  · intro h shard hmem hfalse
    rcases List.mem_append.mp hmem with hdata | hrest
    · exact h shard hdata
    · rw [hparity shard hrest] at hfalse
      cases hfalse

/-- What is left is everything exactly if nothing is missing that is not empty. -/
theorem flatMap_left_iff (hpos : coder.dataShards ≠ 0) (data : List UInt8)
    (p : DataShard → Bool) : ((coder.cuts data).filter p).flatMap (·.data) = data ↔
      ∀ shard ∈ coder.cuts data, p shard = false → shard.data = [] := by
  rw [← flatMap_filter_eq_iff, flatMap_cuts hpos]

end ErasureCoder

/-! ## The layer -/

/-- What has been compressed can be decompressed. -/
def Gzip.Lossless (gzip : Gzip) : Prop :=
  ∀ level data, gzip.decompress (gzip.compress level data) = some data

namespace DataAvailabilityLayer

open ErasureCoder

variable {gzip : Gzip} {layer : DataAvailabilityLayer}

theorem collect_eq (available : DataShard → Bool) (minRequired : Nat) (shards : List DataShard) :
    ∀ collected : List DataShard, collected.length < minRequired →
      collect available minRequired shards collected
        = collected ++ (shards.filter available).take (minRequired - collected.length) := by
  induction shards with
  | nil =>
    intro collected _
    rw [List.filter_nil, List.take_nil, List.append_nil, collect]
  | cons shard shards ih =>
    intro collected hlt
    rw [collect, List.filter_cons]
    split
    next =>
      obtain ⟨n, hn⟩ : ∃ n, minRequired - collected.length = n + 1 :=
        ⟨minRequired - collected.length - 1, by omega⟩
      rw [hn, List.take_succ_cons]
      split
      next =>
        have hzero : n = 0 := by omega
        rw [hzero, List.take_zero]
      next =>
        have hlength : (collected ++ [shard]).length = collected.length + 1 := by
          rw [List.length_append, List.length_singleton]
        have hrest : minRequired - (collected ++ [shard]).length = n := by omega
        rw [ih _ (by omega), hrest, List.append_assoc, List.singleton_append]
    next => exact ih collected hlt

/-- Four shards are collected, with all data shards that are available. -/
theorem retrieveFrom_coded {id : H256} {stored : StoredData} {bytes : List UInt8}
    {parity : List DataShard} (hcoder : layer.erasureCoder = some .standard)
    (hlookup : layer.storage.lookup id = some stored)
    (hshards : stored.shards = standard.cuts bytes ++ parity) (hlength : parity.length = 2)
    (hparity : ∀ shard ∈ parity, shard.parity = true) {available : DataShard → Bool}
    (hfew : (stored.shards.filter (!available ·)).length ≤ 2) :
    layer.retrieveFrom gzip available id = layer.decompressed gzip
      (((standard.cuts bytes).filter available).flatMap (·.data)) := by
  have hcuts : (standard.cuts bytes).length = 4 := rfl
  have hsix : stored.shards.length = 6 := by rw [hshards, List.length_append, hcuts, hlength]
  -- two of six are missing at most
  have henough : 4 ≤ (stored.shards.filter available).length := by
    have hsplit := List.length_eq_length_filter_add (l := stored.shards) available
    omega
  have hcollected : collectShards available stored.shards 4
      = .ok ((stored.shards.filter available).take 4) := by
    have heq := collect_eq available 4 stored.shards [] (by decide)
    rw [List.nil_append, List.length_nil, Nat.sub_zero] at heq
    unfold collectShards
    rw [heq, if_neg (by rw [List.length_take]; omega)]
  -- the data shards come first, so none of them is cut off by the first four
  have hsame : ∀ shard ∈ standard.cuts bytes,
      decide (shard ∈ (stored.shards.filter available).take 4) = available shard := by
    intro shard hmem
    rw [Bool.eq_iff_iff, decide_eq_true_iff, hshards, List.filter_append, List.take_append]
    have hfit : ((standard.cuts bytes).filter available).length ≤ 4 :=
      Nat.le_trans (List.length_filter_le ..) (Nat.le_of_eq hcuts)
    rw [List.take_of_length_le hfit]
    constructor
    · intro hmem'
      rcases List.mem_append.mp hmem' with hdata | hrest
      · exact (List.mem_filter.mp hdata).2
      · exact (List.mem_filter.mp (List.mem_of_mem_take hrest)).2
    · intro havailable
      exact List.mem_append_left _ (List.mem_filter.mpr ⟨hmem, havailable⟩)
  have hsub : ((stored.shards.filter available).take 4).Subperm (standard.cuts bytes ++ parity) :=
    hshards ▸ ((List.take_sublist ..).trans List.filter_sublist).subperm
  have hdecoded := decode_of_subperm hparity hsub
  rw [List.filter_congr hsame] at hdecoded
  unfold retrieveFrom
  rw [hlookup, hcoder]
  dsimp only
  rw [hsix]
  show (collectShards available stored.shards 4 >>= _) = _
  rw [hcollected]
  dsimp only [bind, Except.bind]
  rw [hdecoded]

variable {layer' : DataAvailabilityLayer} {data bytes : List UInt8}

/-- What is stored when `store_data` succeeds. -/
theorem storeData_eq_ok {id : H256} {data : List UInt8} {now : Seconds}
    (h : layer.storeData gzip id data now = (layer', some (.ok ()))) :
    ∃ bytes shards metadata, layer.compressed gzip data = .ok bytes ∧
      layer.shardsOf bytes = some (.ok shards) ∧ layer' = { layer with
        storage := layer.storage.insert id ⟨bytes, metadata, shards⟩ } := by
  unfold storeData at h
  split at h
  next => cases h
  next bytes hbytes =>
    split at h
    next => cases h
    next => cases h
    next shards hshards =>
      cases h
      exact ⟨bytes, shards, _, hbytes, hshards, rfl⟩

theorem storeData_of_shards {bytes : List UInt8} {shards : List DataShard} {data : List UInt8}
    (hbytes : layer.compressed gzip data = .ok bytes)
    (hshards : layer.shardsOf bytes = some (.ok shards)) (id : H256) (now : Seconds) :
    ∃ metadata, layer.storeData gzip id data now = ({ layer with
      storage := layer.storage.insert id ⟨bytes, metadata, shards⟩ }, some (.ok ())) := by
  unfold storeData
  rw [hbytes]
  dsimp only
  rw [hshards]
  exact ⟨_, rfl⟩

theorem decompressed_compressed (h : gzip.Lossless) (data : List UInt8) :
    ∃ bytes, layer.compressed gzip data = .ok bytes ∧ layer.decompressed gzip bytes = .ok data := by
  unfold compressed decompressed
  cases layer.compressor with
  | none => exact ⟨data, rfl, rfl⟩
  | some compressor =>
    refine ⟨gzip.compress compressor.compressionLevel data, rfl, ?_⟩
    dsimp only
    rw [Compressor.decompress, h compressor.compressionLevel data]

/-- Data is stored, and then it comes back. -/
def RoundTrips (gzip : Gzip) (layer : DataAvailabilityLayer) (id : H256) (data : List UInt8)
    (now : Seconds) : Prop :=
  ∃ layer', layer.storeData gzip id data now = (layer', some (.ok ())) ∧
    layer'.retrieveData gzip id = .ok data

/-- What is not coded comes back. -/
theorem roundTrips_plain (hlossless : gzip.Lossless) (hcoder : layer.erasureCoder = none) (id : H256)
    (data : List UInt8) (now : Seconds) : RoundTrips gzip layer id data now := by
  obtain ⟨bytes, hbytes, hback⟩ := @decompressed_compressed gzip layer hlossless data
  have hshards : layer.shardsOf bytes = some (.ok [⟨0, bytes, false⟩]) := by
    unfold shardsOf
    rw [hcoder]
  obtain ⟨metadata, hstore⟩ := storeData_of_shards hbytes hshards id now
  refine ⟨_, hstore, ?_⟩
  unfold retrieveData retrieveFrom
  dsimp only
  rw [AList.lookup_insert, hcoder]
  exact hback

/-- What is coded comes back exactly if it can be cut. -/
theorem roundTrips_coded (hcoder : layer.erasureCoder = some .standard)
    (hbytes : layer.compressed gzip data = .ok bytes)
    (hback : layer.decompressed gzip bytes = .ok data) (id : H256) (now : Seconds) :
    RoundTrips gzip layer id data now ↔ standard.Cuttable bytes.length := by
  have hshards : layer.shardsOf bytes = standard.encode bytes := by
    unfold shardsOf
    rw [hcoder]
  rcases @encode_spec standard (by decide) bytes with
    ⟨hno, hencode⟩ | ⟨hcut, parity, hencode, htwo, hparity⟩
  · refine iff_of_false ?_ hno
    intro hround
    obtain ⟨layer', hstore, _⟩ := hround
    obtain ⟨bytes', shards, _, hbytes', hshards', _⟩ := storeData_eq_ok hstore
    cases hbytes.symm.trans hbytes'
    rw [hshards, hencode] at hshards'
    cases hshards'
  · refine iff_of_true ?_ hcut
    obtain ⟨metadata, hstore⟩ := storeData_of_shards hbytes (hshards.trans hencode) id now
    refine ⟨_, hstore, ?_⟩
    have hall : ∀ shards : List DataShard, shards.filter isShardAvailable = shards :=
      fun shards => List.filter_eq_self.mpr fun _ _ => rfl
    have hnone : ∀ shards : List DataShard, shards.filter (!isShardAvailable ·) = [] :=
      fun shards => List.filter_eq_nil_iff.mpr fun _ _ => Bool.false_ne_true
    let stored : StoredData := ⟨bytes, metadata, standard.cuts bytes ++ parity⟩
    refine (@retrieveFrom_coded gzip { layer with storage := layer.storage.insert id stored } id
      stored bytes parity hcoder (AList.lookup_insert _) rfl htwo hparity isShardAvailable
      ?_).trans ?_
    · rw [hnone]
      exact Nat.zero_le 2
    · rw [hall, flatMap_cuts (by decide)]
      exact hback

/-- What is stored comes back exactly if it is not coded, or its length is none of 1, 2 and 5. -/
theorem roundTrips_iff (gzip : Gzip) (hlossless : gzip.Lossless) (config : DataAvailabilityConfig)
    (storage : AList fun _ : H256 => StoredData) (id : H256) (data : List UInt8) (now : Seconds) :
    RoundTrips gzip { new config with storage } id data now ↔
      config.erasureCodingEnabled = false ∨
        ∀ bytes, (new config).compressed gzip data = .ok bytes →
          bytes.length ≠ 1 ∧ bytes.length ≠ 2 ∧ bytes.length ≠ 5 := by
  obtain ⟨bytes, hbytes, hback⟩ :=
    @decompressed_compressed gzip { new config with storage } hlossless data
  cases hcoding : config.erasureCodingEnabled with
  | false =>
    have hcoder : ({ new config with storage } : DataAvailabilityLayer).erasureCoder = none := by
      rw [new, hcoding]
      rfl
    exact iff_of_true (roundTrips_plain hlossless hcoder id data now) (Or.inl rfl)
  | true =>
    have hcoder :
        ({ new config with storage } : DataAvailabilityLayer).erasureCoder = some .standard := by
      rw [new, hcoding]
      rfl
    rw [or_iff_right (by decide), roundTrips_coded hcoder hbytes hback, cuttable_standard_iff]
    refine ⟨fun h bytes' hbytes' => ?_, fun h => h bytes hbytes⟩
    cases hbytes.symm.trans hbytes'
    exact h

/-- Six bytes are stored in four shards of two, with the last one empty. -/
theorem six_bytes_round_trip :
    RoundTrips sampleGzip (new ⟨.ipfs, false, true⟩) (Vector.replicate 32 0) [1, 2, 3, 4, 5, 6]
      ⟨0, by decide⟩ :=
  (roundTrips_iff sampleGzip (fun _ _ => rfl) ⟨.ipfs, false, true⟩ ∅
    (Vector.replicate 32 0) [1, 2, 3, 4, 5, 6] ⟨0, by decide⟩).mpr
    (Or.inr fun bytes hbytes => by cases hbytes; decide)

/-- The last of four shards of two bytes begins after the end of five bytes. -/
theorem five_bytes_panic :
    ¬ RoundTrips sampleGzip (new ⟨.onChain, false, true⟩) (Vector.replicate 32 0) [1, 2, 3, 4, 5]
      ⟨0, by decide⟩ := by
  rintro ⟨layer', hstore, _⟩
  have hpanic : (storeData sampleGzip (new ⟨.onChain, false, true⟩) (Vector.replicate 32 0)
      [1, 2, 3, 4, 5] ⟨0, by decide⟩).2 = none := by decide
  rw [hstore] at hpanic
  cases hpanic

/-! ## Shards that are missing -/

/-- The result is the data or an error. -/
def Recovers (result : Except Layer2Error (List UInt8)) (data : List UInt8) : Prop :=
  result = .ok data ∨ ∃ error, result = .error error

/-- The data shards that are available, put together. -/
def left (available : DataShard → Bool) (shards : List DataShard) : List UInt8 :=
  (shards.filter fun shard => !shard.parity && available shard).flatMap (·.data)

theorem recovers_ok {data data' : List UInt8} : Recovers (.ok data') data ↔ data' = data := by
  refine ⟨fun h => ?_, fun h => Or.inl (h ▸ rfl)⟩
  rcases h with heq | ⟨error, heq⟩
  · exact Except.ok.inj heq
  · cases heq

/-- The shards left over, from the data shards alone. -/
theorem left_eq {bytes : List UInt8} {parity : List DataShard}
    (hparity : ∀ shard ∈ parity, shard.parity = true) (available : DataShard → Bool) :
    left available (standard.cuts bytes ++ parity)
      = ((standard.cuts bytes).filter available).flatMap (·.data) := by
  have hdata : ∀ shard ∈ standard.cuts bytes,
      (!shard.parity && available shard) = available shard :=
    fun shard hmem => by rw [parity_cuts hmem, Bool.not_false, Bool.true_and]
  have hnone : parity.filter (fun shard => !shard.parity && available shard) = [] := by
    refine List.filter_eq_nil_iff.mpr fun shard hmem => ?_
    rw [hparity shard hmem, Bool.not_true, Bool.false_and]
    exact Bool.false_ne_true
  rw [left, List.filter_append, List.filter_congr hdata, hnone, List.append_nil]

/-- With two shards unavailable `retrieve_data` decompresses what is left, which is what has been
coded exactly if nothing is missing that is not empty. -/
theorem retrieveFrom_stored {id : H256} {now : Seconds} {stored : StoredData}
    (hcoder : layer.erasureCoder = some .standard) (hbytes : layer.compressed gzip data = .ok bytes)
    (hstore : layer.storeData gzip id data now = (layer', some (.ok ())))
    (hlookup : layer'.storage.lookup id = some stored) {available : DataShard → Bool}
    (hfew : (stored.shards.filter (!available ·)).length ≤ 2) :
    layer'.retrieveFrom gzip available id
        = layer.decompressed gzip (left available stored.shards) ∧
      (left available stored.shards = bytes ↔ ∀ shard ∈ stored.shards, shard.parity = false →
        available shard = false → shard.data = []) := by
  obtain ⟨bytes', shards, metadata, hbytes', hshards, heq⟩ := storeData_eq_ok hstore
  cases hbytes.symm.trans hbytes'
  have hencode : standard.encode bytes = some (.ok shards) := by
    rw [shardsOf, hcoder] at hshards
    exact hshards
  have hstored : stored.shards = shards := by
    rw [heq] at hlookup
    dsimp only at hlookup
    rw [AList.lookup_insert] at hlookup
    cases hlookup
    rfl
  rcases @encode_spec standard (by decide) bytes with
    ⟨_, hpanic⟩ | ⟨_, parity, hencode', htwo, hparity⟩
  · rw [hpanic] at hencode
    cases hencode
  cases hencode.symm.trans hencode'
  have hcoder' : layer'.erasureCoder = some .standard := heq ▸ hcoder
  have hsame : ∀ kept, layer'.decompressed gzip kept = layer.decompressed gzip kept := by
    intro kept
    rw [heq]
    rfl
  constructor
  · rw [retrieveFrom_coded hcoder' hlookup hstored htwo hparity hfew, hsame, hstored,
      left_eq hparity]
  · rw [hstored, left_eq hparity, forall_data_iff hparity]
    exact flatMap_left_iff (by decide) bytes available

/-- Decompressing something gives the data or an error. -/
theorem recovers_decompressed_iff (hbytes : layer.compressed gzip data = .ok bytes)
    (hback : layer.decompressed gzip bytes = .ok data) (kept : List UInt8) :
    Recovers (layer.decompressed gzip kept) data ↔ kept = bytes ∨
      layer.compressor.isSome ∧ ∀ bytes, gzip.decompress kept = some bytes → bytes = data := by
  unfold decompressed at hback ⊢
  unfold compressed at hbytes
  cases hcompressor : layer.compressor with
  | none =>
    -- nothing is compressed: what is left is given as it is
    rw [hcompressor] at hbytes
    cases hbytes
    rw [or_iff_left fun h => Bool.false_ne_true h.1]
    exact recovers_ok
  | some compressor =>
    rw [hcompressor] at hback
    dsimp only at hback ⊢
    unfold Compressor.decompress at hback ⊢
    have hgiven : kept = bytes → ∀ bytes, gzip.decompress kept = some bytes → bytes = data := by
      intro heq bytes hsome
      rw [← heq, hsome] at hback
      exact Except.ok.inj hback
    have hor : (kept = bytes ∨ (some compressor).isSome ∧
        ∀ bytes, gzip.decompress kept = some bytes → bytes = data) ↔
          ∀ bytes, gzip.decompress kept = some bytes → bytes = data :=
      ⟨fun h => h.elim hgiven And.right, fun h => Or.inr ⟨rfl, h⟩⟩
    rw [hor]
    cases gzip.decompress kept with
    | none => exact iff_of_true (Or.inr ⟨_, rfl⟩) fun _ hsome => by cases hsome
    | some bytes =>
      refine recovers_ok.trans ⟨fun heq _ hsome => ?_, fun h => h bytes rfl⟩
      exact Option.some.inj hsome ▸ heq

theorem recovers_retrieveFrom_iff (hlossless : gzip.Lossless) {id : H256} {data : List UInt8}
    {now : Seconds} {stored : StoredData} (hcoder : layer.erasureCoder = some .standard)
    (hstore : layer.storeData gzip id data now = (layer', some (.ok ())))
    (hlookup : layer'.storage.lookup id = some stored) {available : DataShard → Bool}
    (hfew : (stored.shards.filter (!available ·)).length ≤ 2) :
    Recovers (layer'.retrieveFrom gzip available id) data ↔
      (∀ shard ∈ stored.shards, shard.parity = false → available shard = false →
        shard.data = []) ∨
      layer.compressor.isSome ∧ ∀ bytes,
        gzip.decompress (left available stored.shards) = some bytes → bytes = data := by
  obtain ⟨bytes, hbytes, hback⟩ := @decompressed_compressed gzip layer hlossless data
  obtain ⟨hretrieve, hleft⟩ := retrieveFrom_stored hcoder hbytes hstore hlookup hfew
  rw [hretrieve, recovers_decompressed_iff hbytes hback, hleft]

/-- Decoding some of the shards never gives other data exactly if every data shard that is missing
is empty; and so for `retrieve_data` with two shards unavailable, unless gzip notices that data is
missing. -/
theorem recovers_iff (gzip : Gzip) (hlossless : gzip.Lossless) (data : List UInt8) :
    (∀ shards chosen, standard.encode data = some (.ok shards) → chosen.Subperm shards →
      4 ≤ chosen.length → (Recovers (standard.decode chosen) data ↔
        ∀ shard ∈ shards, shard.parity = false → shard ∉ chosen → shard.data = [])) ∧
    (∀ layer layer' : DataAvailabilityLayer, ∀ id now stored available,
      layer.erasureCoder = some .standard →
      layer.storeData gzip id data now = (layer', some (.ok ())) →
      layer'.storage.lookup id = some stored →
      (stored.shards.filter (!available ·)).length ≤ 2 →
      (Recovers (layer'.retrieveFrom gzip available id) data ↔
        (∀ shard ∈ stored.shards, shard.parity = false → available shard = false →
          shard.data = []) ∨
        layer.compressor.isSome ∧ ∀ bytes,
          gzip.decompress (left available stored.shards) = some bytes → bytes = data)) := by
  refine ⟨fun shards chosen hencode hsub _ => ?_,
    fun layer layer' id now stored available hcoder hstore hlookup hfew =>
      recovers_retrieveFrom_iff hlossless hcoder hstore hlookup hfew⟩
  rcases @encode_spec standard (by decide) data with
    ⟨_, hpanic⟩ | ⟨_, parity, hencode', _, hparity⟩
  · rw [hpanic] at hencode
    cases hencode
  cases hencode.symm.trans hencode'
  rw [decode_of_subperm hparity hsub, recovers_ok, flatMap_left_iff (by decide),
    forall_data_iff hparity]
  refine forall_congr' fun shard => forall_congr' fun _ => ?_
  rw [decide_eq_false_iff_not]

/-- Four bytes in four shards, and the parity. -/
def sampleShards : List DataShard :=
  (List.range 2).foldl standard.pushParity (standard.cuts [1, 2, 3, 4])

/-- A layer that holds them. -/
def sampleLayer : DataAvailabilityLayer :=
  (storeData sampleGzip (new ⟨.onChain, false, true⟩) (Vector.replicate 32 0) [1, 2, 3, 4]
    (.ofNat 0)).1

/-- Only the parity shards are missing. -/
theorem parity_shards_missing :
    Recovers (standard.decode (standard.cuts [1, 2, 3, 4])) [1, 2, 3, 4] ∧
      Recovers (sampleLayer.retrieveFrom sampleGzip (!·.parity) (Vector.replicate 32 0))
        [1, 2, 3, 4] := by
  obtain ⟨hdecode, hretrieve⟩ :=
    recovers_iff sampleGzip (fun _ _ => rfl) [1, 2, 3, 4]
  have hsub : (standard.cuts [1, 2, 3, 4]).Sublist sampleShards := by decide
  constructor
  · exact (hdecode sampleShards _ (by decide) hsub.subperm (by decide)).mpr (by decide)
  · exact (hretrieve (new ⟨.onChain, false, true⟩) sampleLayer (Vector.replicate 32 0)
      ⟨0, by decide⟩ _ (!·.parity) rfl rfl rfl (by decide)).mpr (Or.inl (by decide))

/-- Of four bytes in four shards, the first one is missing. -/
theorem first_shard_missing :
    standard.encode [1, 2, 3, 4] = some (.ok sampleShards) ∧
      (sampleShards.drop 1).Subperm sampleShards ∧ 4 ≤ (sampleShards.drop 1).length ∧
      ¬ Recovers (standard.decode (sampleShards.drop 1)) [1, 2, 3, 4] := by
  refine ⟨by decide, (List.drop_sublist 1 _).subperm, by decide, ?_⟩
  rintro (heq | ⟨_, heq⟩)
  · exact absurd heq (by decide)
  · exact absurd heq nofun

end DataAvailabilityLayer

end InterBit.Layer2
