import InterBit.Layer2.Types

/-!
# The data availability layer

`layer2/data_availability.rs`. Data is compressed, cut into shards with parity, and put into a map.
The encoder cuts with ranges of one length; a range that begins after the end of the data panics.
The decoder does not use the parity. Gzip is a parameter; which shards are available is one where
the code asks `is_shard_available`, which always says yes.

Of the errors in the types of these functions only those of `retrieve_data` come: the compressor
writes into a vector, the encoder panics where it cannot cut, and the locations of the shards are
made up. `storeData_ne_error` is what `create_batch` relies on.
-/

namespace InterBit.Layer2

/-- Gzip, as `flate2` has it. -/
structure Gzip where
  /-- `GzEncoder` at a level, into a vector. A vector takes every write, so there is no error. -/
  compress : Nat → List UInt8 → List UInt8
  /-- `GzDecoder`; `none` is an error. -/
  decompress : List UInt8 → Option (List UInt8)

/-- `struct DataShard`. -/
structure DataShard where
  index : Nat
  data : List UInt8
  parity : Bool
  deriving DecidableEq

/-! ## The erasure coder -/

/-- `struct ErasureCoder`. -/
structure ErasureCoder where
  dataShards : Nat
  parityShards : Nat

/-- `data[start..end]`; `none` is a panic. -/
def slice (data : List UInt8) (start stop : Nat) : Option (List UInt8) :=
  if start ≤ stop ∧ stop ≤ data.length then some ((data.take stop).drop start) else none

/-- `u8::rotate_left`. -/
def rotateLeft (byte : UInt8) (n : Nat) : UInt8 := ⟨byte.toBitVec.rotateLeft n⟩

/-- The inner loop of `generate_parity`: `parity` is at least as long as the other one. -/
def xorInto : List UInt8 → List UInt8 → List UInt8
  | p :: parity, b :: bytes => (p ^^^ b) :: xorInto parity bytes
  | parity, _ => parity

/-- `generate_parity`. -/
def generateParity (shards : List DataShard) (parityIndex : Nat) : List UInt8 :=
  let maxLen := (shards.map (·.data.length)).foldl max 0
  shards.foldl (fun parity shard => xorInto parity (shard.data.map (rotateLeft · parityIndex)))
    (List.replicate maxLen 0)

namespace ErasureCoder

/-- The coder of `DataAvailabilityLayer::new`. -/
def standard : ErasureCoder := ⟨4, 2⟩

/-- The length of a shard. -/
def shardSize (coder : ErasureCoder) (length : Nat) : Nat :=
  (length + coder.dataShards - 1) / coder.dataShards

/-- A data shard; `none` is a panic. -/
def dataShard (coder : ErasureCoder) (data : List UInt8) (i : Nat) : Option DataShard :=
  -- with the length rounded up, the last shards may begin after the end
  let start := i * coder.shardSize data.length
  let stop := min (start + coder.shardSize data.length) data.length
  match slice data start stop with
  | none => none
  | some bytes => some ⟨i, bytes, false⟩

/-- One more parity shard. It covers the parity shards before it as well. -/
def pushParity (coder : ErasureCoder) (shards : List DataShard) (i : Nat) : List DataShard :=
  shards ++ [⟨coder.dataShards + i, generateParity shards i, true⟩]

/-- `encode`. -/
def encode (coder : ErasureCoder) (data : List UInt8) : Outcome (List DataShard) :=
  if coder.dataShards = 0 then none
  else
    match (List.range coder.dataShards).mapM (coder.dataShard data) with
    | none => none
    | some shards => some (.ok ((List.range coder.parityShards).foldl coder.pushParity shards))

/-- `decode`. -/
def decode (_coder : ErasureCoder) (shards : List DataShard) : Except Layer2Error (List UInt8) :=
  -- nothing is rebuilt: the parity is left out
  let dataShards := (shards.filter (!·.parity)).insertionSort fun a b => a.index ≤ b.index
  .ok (dataShards.flatMap (·.data))

end ErasureCoder

/-! ## The layer -/

/-- `struct Compressor`. -/
structure Compressor where
  compressionLevel : Nat

/-- `compress`. The errors of the encoder that it passes on do not come. -/
def Compressor.compress (gzip : Gzip) (compressor : Compressor) (data : List UInt8) :
    Except Layer2Error (List UInt8) :=
  .ok (gzip.compress compressor.compressionLevel data)

/-- `decompress`. -/
def Compressor.decompress (gzip : Gzip) (_compressor : Compressor) (data : List UInt8) :
    Except Layer2Error (List UInt8) :=
  match gzip.decompress data with
  | some bytes => .ok bytes
  | none => .error .compressionError

/-- `struct DataMetadata`. -/
structure DataMetadata where
  originalSize : Nat
  compressedSize : Option Nat
  shardCount : Nat
  storageLocations : List String
  timestamp : U64

/-- `struct StoredData`. -/
structure StoredData where
  data : List UInt8
  metadata : DataMetadata
  shards : List DataShard

/-- `struct DataAvailabilityLayer`. -/
structure DataAvailabilityLayer where
  config : DataAvailabilityConfig
  storage : AList fun _ : H256 => StoredData
  erasureCoder : Option ErasureCoder
  compressor : Option Compressor

namespace DataAvailabilityLayer

/-- `DataAvailabilityLayer::new`. -/
def new (config : DataAvailabilityConfig) : DataAvailabilityLayer where
  config
  storage := ∅
  erasureCoder := if config.erasureCodingEnabled then some .standard else none
  compressor := if config.compressionEnabled then some ⟨6⟩ else none

/-- The location of a shard. -/
def location (storageType : StorageType) (i : Nat) : String :=
  match storageType with
  | .onChain => "onchain://shard/" ++ toString i
  | .ipfs => "ipfs://QmExample"
  | .celestia => "celestia://namespace-example"
  | .eigenDA => "eigenda://blob-example"
  | .custom => "custom://shard/" ++ toString i

/-- `distribute_shards`. -/
def distributeShards (layer : DataAvailabilityLayer) (shards : List DataShard) : List String :=
  (List.range shards.length).map (location layer.config.storageType)

/-- What is stored of the data. -/
def compressed (gzip : Gzip) (layer : DataAvailabilityLayer) (data : List UInt8) :
    Except Layer2Error (List UInt8) :=
  match layer.compressor with
  | some compressor => compressor.compress gzip data
  | none => .ok data

/-- What has been stored, decompressed. -/
def decompressed (gzip : Gzip) (layer : DataAvailabilityLayer) (data : List UInt8) :
    Except Layer2Error (List UInt8) :=
  match layer.compressor with
  | some compressor => compressor.decompress gzip data
  | none => .ok data

/-- The shards of what is stored. -/
def shardsOf (layer : DataAvailabilityLayer) (data : List UInt8) : Outcome (List DataShard) :=
  match layer.erasureCoder with
  | some coder => coder.encode data
  | none => some (.ok [⟨0, data, false⟩])

/-- `store_data`. -/
def storeData (gzip : Gzip) (layer : DataAvailabilityLayer) (id : H256) (data : List UInt8)
    (now : Seconds) : DataAvailabilityLayer × Outcome Unit :=
  match layer.compressed gzip data with
  | .error error => (layer, some (.error error))
  | .ok bytes =>
    match layer.shardsOf bytes with
    | none => (layer, none)
    | some (.error error) => (layer, some (.error error))
    | some (.ok shards) =>
      let metadata : DataMetadata :=
        { originalSize := data.length
          compressedSize := if layer.compressor.isSome then some bytes.length else none
          shardCount := shards.length
          storageLocations := layer.distributeShards shards
          timestamp := now.val }
      ({ layer with storage := layer.storage.insert id ⟨bytes, metadata, shards⟩ },
        some (.ok ()))

/-- If the data is not stored, the layer is as it was. -/
theorem storeData_unchanged {gzip : Gzip} {layer : DataAvailabilityLayer} {id : H256}
    {data : List UInt8} {now : Seconds}
    (h : (layer.storeData gzip id data now).2 ≠ some (.ok ())) :
    (layer.storeData gzip id data now).1 = layer := by
  unfold storeData at h ⊢
  split
  next => rfl
  next heq =>
    rw [heq] at h
    dsimp only at h
    split
    next => rfl
    next => rfl
    next hshards =>
      rw [hshards] at h
      exact absurd rfl h

/-- The encoder returns no error. Where it cannot cut, it panics. -/
theorem shardsOf_ne_error (layer : DataAvailabilityLayer) (data : List UInt8)
    (error : Layer2Error) : layer.shardsOf data ≠ some (.error error) := by
  unfold shardsOf ErasureCoder.encode
  split
  next =>
    split
    next => nofun
    next => split <;> nofun
  next => nofun

/-- `store_data` returns no error. -/
theorem storeData_ne_error (gzip : Gzip) (layer : DataAvailabilityLayer) (id : H256)
    (data : List UInt8) (now : Seconds) (error : Layer2Error) :
    (layer.storeData gzip id data now).2 ≠ some (.error error) := by
  have hcompressed : ∃ bytes, layer.compressed gzip data = .ok bytes := by
    unfold compressed
    cases layer.compressor with
    | none => exact ⟨data, rfl⟩
    | some compressor => exact ⟨_, rfl⟩
  obtain ⟨bytes, hbytes⟩ := hcompressed
  unfold storeData
  rw [hbytes]
  dsimp only
  split
  next => nofun
  next error' herror => exact absurd herror (shardsOf_ne_error layer bytes error')
  next => nofun

/-- The loop of `collect_shards`. -/
def collect (available : DataShard → Bool) (minRequired : Nat) :
    List DataShard → List DataShard → List DataShard
  | [], collected => collected
  | shard :: shards, collected =>
    if available shard then
      -- the shards after it are not asked for
      if minRequired ≤ collected.length + 1 then collected ++ [shard]
      else collect available minRequired shards (collected ++ [shard])
    else collect available minRequired shards collected

/-- `collect_shards`. -/
def collectShards (available : DataShard → Bool) (shards : List DataShard) (minRequired : Nat) :
    Except Layer2Error (List DataShard) :=
  let collected := collect available minRequired shards []
  if collected.length < minRequired then .error .dataNotAvailable else .ok collected

/-- `is_shard_available`. -/
def isShardAvailable (_shard : DataShard) : Bool := true

/-- `retrieve_data`, with the shards that are available. -/
def retrieveFrom (gzip : Gzip) (available : DataShard → Bool) (layer : DataAvailabilityLayer)
    (id : H256) : Except Layer2Error (List UInt8) := do
  let some stored := layer.storage.lookup id | .error .dataNotAvailable
  match layer.erasureCoder with
  | some coder =>
    let minShards := stored.shards.length * 2 / 3
    let availableShards ← collectShards available stored.shards minShards
    let data ← coder.decode availableShards
    layer.decompressed gzip data
  | none => layer.decompressed gzip stored.data

/-- `retrieve_data`. -/
def retrieveData (gzip : Gzip) (layer : DataAvailabilityLayer) (id : H256) :
    Except Layer2Error (List UInt8) := layer.retrieveFrom gzip isShardAvailable id

/-- A gzip that does nothing. -/
def sampleGzip : Gzip := ⟨fun _ data => data, some⟩

end DataAvailabilityLayer

end InterBit.Layer2
