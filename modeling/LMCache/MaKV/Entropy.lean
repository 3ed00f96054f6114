import LMCache.MaKV.ArithmeticCoder
import LMCache.MaKV.ReferenceDequant

/-!
# Entropy coding of payloads

The payloads below 16 bits are turned into small symbols, cut into streams of 256 and coded
arithmetically. The streams, their cumulative counts and their lengths become payloads of
their own, and a descriptor in the metadata tells the decoder how to read them.
-/

namespace LMCache.MaKV

open Lib

class CudaCodec where
  available : Bool
  encode : List (List Nat) → Nat → List (List Nat × Bytes)

variable {F : Type} [PyRuntime F] [CudaCodec]

def codecName : String := "cachegen_arithmetic_v1"

def codecVersion : Int := 1

def streamTokens : Nat := 256

def streamBufferBytes : Nat := 256

def supportedEntropyBits : List Int := [2, 4, 8]

def selectBackend (backend : EntropyBackend) (requireCuda : Bool) : Result EntropyBackend := do
  rejectIf (backend = .reference && requireCuda)
    "MaKV entropy backend=reference cannot be used with require_cuda=true"
  if backend ≠ .reference ∧ CudaCodec.available then return .cuda
  raiseIf .runtimeError (backend = .cuda || requireCuda)
    "MaKV arithmetic codec requires the CacheGen CUDA extension and an available CUDA device"
  return .reference

def backendText : EntropyBackend → String
  | .auto => "auto"
  | .cuda => "cuda"
  | .reference => "reference"

def alphabetSize (bits : Int) : Result Nat :=
  if bits = 2 then .ok 3
  else if bits = 4 then .ok 15
  else if bits = 8 then .ok 16
  else valueError s!"MaKV arithmetic coding does not support {bits} bit"

def qmax (bits : Int) : Nat := if bits = 2 then 1 else if bits = 4 then 7 else 127

/-- `value.get(key, standard)` of a dictionary. -/
def getOr (value : Json F) (key : String) (standard : Json F) : Result (Json F) :=
  match value with
  | .obj members => .ok ((Dict.find key members).getD standard)
  | _ => raise .attributeError "object has no attribute 'get'"

/-- The entries of the bucket table with the given width. -/
def matchingEntries (bits : Int) : List (Json F) → Result (List (Json F))
  | [] => .ok []
  | entry :: rest => do
    let width ← (← getOr entry "bits" (.int (-1))).toInt
    let others ← matchingEntries bits rest
    return if width = bits then entry :: others else others

structure BucketGeometry where
  vectors : Int
  headDim : Int

def BucketGeometry.logicalElements (g : BucketGeometry) : Int := g.vectors * g.headDim

def bucketGeometry (metadata : Metadata F) (bits : Int) : Result BucketGeometry := do
  rejectIf (!((metadata.get? "plan").getD .null).isObject)
    "MaKV entropy metadata is missing its plan"
  let plan := (metadata.get? "plan").getD .null
  let entries ← ((metadata.get? "bucket_entries").getD (.arr [])).iterate
  let found ← matchingEntries bits entries
  rejectIf (found.length ≠ 1) s!"MaKV entropy metadata has no unique {bits}-bit bucket"
  let count ← (← (found.headD .null).item "count").toInt
  let layers ← (← plan.item "num_layers").toInt
  let heads ← (← plan.item "num_kv_heads").toInt
  let headDim ← (← plan.item "head_dim").toInt
  let layout := (← plan.item "importance_layout").toText
  let vectors := if layout = "layer_kv_token" then count * heads else count * layers * 2 * heads
  rejectIf (count < 0 || vectors < 0 || headDim ≤ 0) "invalid MaKV entropy bucket geometry"
  return ⟨vectors, headDim⟩

/-- The symbols of a payload, in one plane or in the planes of the low and high nibbles. -/
def payloadToSymbolPlanes (payload : Bytes) (bits : Int) (vectors headDim : Nat) :
    Result (List (String × List Int)) := do
  if bits = 8 then
    rejectIf (payload.length ≠ vectors * headDim)
      s!"MaKV INT8 payload length mismatch: {payload.length} != {vectors * headDim}"
    let unsigned := payload.map fun b => signedOfBytes [b] + qmax bits
    return [("low", unsigned.map (· % 16)), ("high", unsigned.map (· / 16))]
  else
    let expected := vectors * rowBytes bits.toNat headDim
    rejectIf (payload.length ≠ expected)
      s!"MaKV INT{bits} packed payload length mismatch: {payload.length} != {expected}"
    if vectors = 0 then return [("value", [])]
    let rows ← unpackLowBit payload vectors headDim bits
    return [("value", rows.flatten.map (· + qmax bits))]

structure CodedPlane where
  stream : Bytes
  cdf : Bytes
  lengths : Bytes
  streamCount : Nat

def symbolStreams (symbols : List Nat) : List (List Nat) :=
  let streamCount := (symbols.length + streamTokens - 1) / streamTokens
  rowsOf streamCount streamTokens
    (symbols ++ List.replicate (streamCount * streamTokens - symbols.length) 0)

/-- The cumulative counts and the code of every stream. -/
def codedStreams (backend : EntropyBackend) (maxBins : Nat) (streams : List (List Nat)) :
    List (List Nat × Bytes) :=
  if backend = .cuda then CudaCodec.encode streams maxBins
  else streams.map fun symbols =>
    let cdf := calculateCdf symbols maxBins
    (cdf, encodeSingleChannel cdf symbols streamBufferBytes)

def encodeSymbolStream (symbols : List Int) (maxBins : Nat) (backend : EntropyBackend) :
    Result CodedPlane := do
  if symbols.isEmpty then return ⟨[], [], [], 0⟩
  rejectIf (symbols.any fun s => s < 0 || maxBins ≤ s)
    "MaKV entropy symbol is outside its CDF alphabet"
  let streams := symbolStreams (symbols.map Int.toNat)
  let coded := codedStreams backend maxBins streams
  let lengths := coded.map fun c => c.2.length
  rejectIf (lengths.any fun n => n = 0 || streamBufferBytes < n)
    "CacheGen arithmetic encoder produced an invalid stream length"
  return {
    stream := coded.flatMap fun c => c.2
    cdf := coded.flatMap fun c => c.1.flatMap (Bytes.toLE 2)
    lengths := lengths.flatMap fun (n : Nat) => signedBytes 4 n
    streamCount := streams.length }

def planeName (kind : String) (bits : Int) (planeIndex : Nat) : String :=
  "entropy_" ++ kind ++ "_" ++ toString bits ++ "_p" ++ toString planeIndex

/-- The payloads of a bucket, the descriptors of its planes and the bytes written. -/
structure EncodedPlanes (F : Type) where
  payloads : Payloads
  planes : List (Json F)
  outputBytes : Nat

def planeDescriptor (name : String) (bits : Int) (planeIndex symbolCount maxBins : Nat)
    (coded : CodedPlane) : Json F :=
  .obj [
    ("name", .str name),
    ("stream_name", .str (planeName "stream" bits planeIndex)),
    ("cdf_name", .str (planeName "cdf" bits planeIndex)),
    ("lengths_name", .str (planeName "lengths" bits planeIndex)),
    ("symbol_count", .int symbolCount),
    ("stream_count", .int coded.streamCount),
    ("max_bins", .int maxBins),
    ("stream_bytes", .int coded.stream.length),
    ("cdf_bytes", .int coded.cdf.length),
    ("lengths_bytes", .int coded.lengths.length)]

def encodePlane (bits : Int) (backend : EntropyBackend) (acc : EncodedPlanes F)
    (plane : (String × List Int) × Nat) : Result (EncodedPlanes F) := do
  let maxBins ← alphabetSize bits
  let coded ← encodeSymbolStream plane.1.2 maxBins backend
  return {
    payloads := ((acc.payloads.set (planeName "stream" bits plane.2) coded.stream).set
      (planeName "cdf" bits plane.2) coded.cdf).set (planeName "lengths" bits plane.2) coded.lengths
    planes := acc.planes ++ [planeDescriptor plane.1.1 bits plane.2 plane.1.2.length maxBins coded]
    outputBytes := acc.outputBytes + (coded.stream.length + coded.cdf.length +
      coded.lengths.length) }

/-- The payloads so far, the buckets of the descriptor and the counts of bytes. -/
structure EncodedBuckets (F : Type) where
  payloads : Payloads
  buckets : Dict String (Json F)
  inputBytes : Nat
  outputBytes : Nat

def payloadName (bits : Int) : String := "payload_" ++ toString bits

def encodeBucket (metadata : Metadata F) (backend : EntropyBackend) (acc : EncodedBuckets F)
    (width : Json F) : Result (EncodedBuckets F) := do
  let bits ← width.toInt
  if bits ∉ supportedEntropyBits then return acc
  let geometry ← bucketGeometry metadata bits
  rejectIf (!acc.payloads.contains (payloadName bits))
    s!"MaKV entropy input is missing {payloadName bits}"
  let raw := (acc.payloads.get? (payloadName bits)).getD []
  let planes ← payloadToSymbolPlanes raw bits geometry.vectors.toNat geometry.headDim.toNat
  let encoded ← planes.zipIdx.foldlM (encodePlane bits backend)
    ⟨acc.payloads.erase (payloadName bits), [], acc.outputBytes⟩
  return {
    payloads := encoded.payloads
    buckets := acc.buckets.set (toString bits) (.obj [
      ("bits", .int bits),
      ("vectors", .int geometry.vectors),
      ("head_dim", .int geometry.headDim),
      ("logical_elements", .int geometry.logicalElements),
      ("input_payload_bytes", .int raw.length),
      ("planes", .arr encoded.planes)])
    inputBytes := acc.inputBytes + raw.length
    outputBytes := encoded.outputBytes }

def entropyDescriptor (backend : EntropyBackend) (encoded : EncodedBuckets F) : Json F :=
  .obj [
    ("codec", .str codecName),
    ("version", .int codecVersion),
    ("backend", .str (backendText backend)),
    ("stream_tokens", .int streamTokens),
    ("buckets", .obj encoded.buckets.entries),
    ("input_bytes", .int encoded.inputBytes),
    ("output_bytes", .int encoded.outputBytes)]

/-- Arithmetic-code the payloads below 16 bits. -/
def encodeEntropyPayloads (metadata : Metadata F) (payloads : Payloads) (codec : EntropyCodec)
    (backend : EntropyBackend) (requireCuda : Bool) : Result (Metadata F × Payloads) := do
  if codec = .none then return (metadata, payloads)
  let selected ← selectBackend backend requireCuda
  let plan ← Json.item (.obj metadata.entries) "plan"
  let widths ← (← plan.item "bucket_bits").iterate
  let encoded ← widths.foldlM (encodeBucket metadata selected) ⟨payloads, Dict.empty, 0, 0⟩
  return (metadata.set "entropy" (entropyDescriptor selected encoded), encoded.payloads)

/-- What the decoder asks for a payload: its name and the bytes of one element. -/
abbrev GetPayload := String → Nat → Result Bytes

def decodeSymbolPlane (plane : Json F) (getPayload : GetPayload) : Result (List Nat) := do
  let streamCount ← (← plane.item "stream_count").toInt
  let symbolCount ← (← plane.item "symbol_count").toInt
  let maxBins ← (← plane.item "max_bins").toInt
  let streamBytes ← (← plane.item "stream_bytes").toInt
  rejectIf (streamCount < 0 || symbolCount < 0 || streamCount * streamTokens < symbolCount ||
      maxBins ≤ 0 || 64 ≤ maxBins || streamBytes < 0 ||
      streamCount * streamBufferBytes < streamBytes)
    "invalid MaKV entropy stream descriptor"
  if streamCount = 0 then
    rejectIf (symbolCount ≠ 0 || streamBytes ≠ 0) "empty MaKV entropy stream has non-empty metadata"
    let _ ← getPayload (← plane.item "stream_name").toText 1
    return []
  let cdf ← getPayload (← plane.item "cdf_name").toText 2
  let stream ← getPayload (← plane.item "stream_name").toText 1
  let lengths ← getPayload (← plane.item "lengths_name").toText 4
  rejectIf ((cdf.length / 2 : Nat) ≠ streamCount * (maxBins + 1)) "MaKV entropy CDF length mismatch"
  rejectIf ((lengths.length / 4 : Nat) ≠ streamCount) "MaKV entropy stream length table mismatch"
  rejectIf (stream.length ≠ streamBytes) "MaKV entropy bytestream length mismatch"
  let lengthValues := (lengths.words 4).map signedOfBytes
  rejectIf (lengthValues.any fun n => n ≤ 0 || streamBufferBytes < n)
    "MaKV entropy stream length is out of range"
  let cdfs := rowsOf streamCount.toNat (maxBins.toNat + 1) ((cdf.words 2).map Bytes.ofLE)
  let output := decodeFastPrefsum cdfs stream (cumulative (lengthValues.map Int.toNat)) streamTokens
  rejectIf ((output.flatten.length : Int) < symbolCount)
    "MaKV entropy symbol count exceeds decoded stream capacity"
  return output.flatten.take symbolCount.toNat

def decodePlane (getPayload : GetPayload) (acc : Dict String (List Nat)) (plane : Json F) :
    Result (Dict String (List Nat)) := do
  let name := (← plane.item "name").toText
  rejectIf (acc.contains name) "MaKV entropy bucket contains duplicate planes"
  let symbols ← decodeSymbolPlane plane getPayload
  return acc.set name symbols

/-- The `int8` payload of the planes of an 8-bit bucket. -/
def joinNibbles (planes : Dict String (List Nat)) (logicalElements : Int) : Result Bytes := do
  rejectIf (planes.size ≠ 2 || !planes.contains "low" || !planes.contains "high")
    "MaKV INT8 entropy bucket must have low/high planes"
  rejectIf (planes.values.any fun symbols => (symbols.length : Int) ≠ logicalElements)
    "MaKV INT8 entropy symbol count mismatch"
  let low := (planes.get? "low").getD []
  let high := (planes.get? "high").getD []
  return (List.zipWith (fun l h => ((l ||| h <<< 4 : Nat) : Int) - qmax 8) low high).flatMap
    (signedBytes 1)

/-- The packed payload of the plane of a 2-bit or 4-bit bucket. -/
def packSymbols (planes : Dict String (List Nat)) (bits : Int) (vectors headDim : Nat)
    (logicalElements : Int) : Result Bytes := do
  rejectIf (planes.size ≠ 1) s!"MaKV INT{bits} entropy bucket must have one plane"
  let symbols := planes.values.headD []
  rejectIf ((symbols.length : Int) ≠ logicalElements)
    s!"MaKV INT{bits} entropy symbol count mismatch"
  return (rowsOf vectors headDim (symbols.map fun (s : Nat) => (s : Int) - qmax bits)).flatMap
    (packRow bits.toNat)

def joinPlanes (planes : Dict String (List Nat)) (bits : Int) (vectors headDim : Nat)
    (logicalElements : Int) : Result Bytes :=
  if bits = 8 then joinNibbles planes logicalElements
  else packSymbols planes bits vectors headDim logicalElements

/-- The bytes of a payload below 16 bits. -/
def packedBytes (bits : Int) (vectors headDim : Nat) : Nat :=
  vectors * if bits = 8 then headDim else rowBytes bits.toNat headDim

def decodeEntropyBucket (getPayload : GetPayload) (decoded : Dict Int Bytes)
    (bucket : String × Json F) : Result (Dict Int Bytes) := do
  let bits ← PyRuntime.intOfText F bucket.1
  rejectIf (bits ∉ supportedEntropyBits || !bucket.2.isObject)
    "invalid MaKV entropy bucket descriptor"
  let vectors ← (← bucket.2.item "vectors").toInt
  let headDim ← (← bucket.2.item "head_dim").toInt
  let logicalElements ← (← bucket.2.item "logical_elements").toInt
  rejectIf (vectors < 0 || headDim ≤ 0 || logicalElements < 0 ||
    logicalElements ≠ vectors * headDim) "invalid MaKV entropy bucket geometry"
  let planes ← match bucket.2.get? "planes" with
    | some (.arr (plane :: rest)) => .ok (plane :: rest)
    | _ => valueError "MaKV entropy bucket has no planes"
  let values ← planes.foldlM (decodePlane getPayload) Dict.empty
  let payload ← joinPlanes values bits vectors.toNat headDim.toNat logicalElements
  rejectIf (payload.length ≠ packedBytes bits vectors.toNat headDim.toNat)
    "MaKV entropy decoded payload length mismatch"
  return decoded.set bits payload

def decodeEntropyPayloads (metadata : Metadata F) (getPayload : GetPayload) :
    Result (Dict Int Bytes) :=
  match metadata.get? "entropy" with
  | some (.obj members) => do
    let entropy : Json F := .obj members
    rejectIf (!((entropy.get? "codec").getD .null).equalsText codecName)
      "unsupported MaKV entropy codec version"
    let version ← ((entropy.get? "version").getD (.int (-1))).toInt
    rejectIf (version ≠ codecVersion) "unsupported MaKV entropy codec version"
    match (entropy.get? "buckets").getD (.obj []) with
    | .obj buckets => buckets.foldlM (decodeEntropyBucket getPayload) Dict.empty
    | _ => valueError "invalid MaKV entropy bucket table"
  | _ => .ok Dict.empty

end LMCache.MaKV
