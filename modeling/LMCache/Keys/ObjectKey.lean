import LMCache.Lib.Python
import LMCache.Lib.Text

/-!
# Object keys and their codecs

An object key is written as fields between `@`: the model, the rank and the group in
hexadecimal, the chunk hash, and the salt where there is one. The raw-block index quotes the
model name; the filesystem adapter replaces its slashes and adds a file extension.
-/

namespace LMCache.Keys

open Lib Text

/-- The fields of a key, whose texts are compared by most of the system and written by the
codecs. -/
structure KeyFields (Text : Type) where
  chunkHash : Bytes
  modelName : Text
  kvRank : Int
  objectGroupId : Nat
  cacheSalt : Text
  deriving DecidableEq, Repr

def separator : PyChar := .plain '@'

def saltForbiddenChars : PyStr := ofChars ['@', '/', '\\', Char.ofNat 0]

def saltMaxLen : Nat := 128

structure ObjectKey extends KeyFields PyStr where
  modelName_plain : separator ∉ modelName
  cacheSalt_plain : ∀ c ∈ cacheSalt, c ∉ saltForbiddenChars
  cacheSalt_length : cacheSalt.length ≤ saltMaxLen
  deriving DecidableEq

section Codecs

variable [PyText]

/-- The constructor with the checks of `__post_init__`. -/
def ObjectKey.make (chunkHash : Bytes) (modelName : PyStr) (kvRank objectGroupId : Int)
    (cacheSalt : PyStr) : Result ObjectKey :=
  if hModel : separator ∈ modelName then
    valueError s!"model_name must not contain '@' (got {PyText.reprOf modelName})"
  else if objectGroupId < 0 then
    valueError s!"object_group_id must be >= 0 (got {objectGroupId})"
  else if hSalt : cacheSalt.any (· ∈ saltForbiddenChars) then
    valueError (s!"cache_salt must not contain " ++
      s!"{PyText.reprOfSet (cacheSalt.filter (· ∈ saltForbiddenChars))} " ++
      s!"(got {PyText.reprOf cacheSalt})")
  else if hLength : saltMaxLen < cacheSalt.length then
    valueError s!"cache_salt exceeds max length {saltMaxLen} (got {cacheSalt.length})"
  else .ok ⟨⟨chunkHash, modelName, kvRank, objectGroupId.toNat, cacheSalt⟩, hModel,
    fun c hMem hBad => hSalt (List.any_eq_true.mpr ⟨c, hMem, decide_eq_true hBad⟩),
    not_lt.mp hLength⟩

def keyFields (safeModel : PyStr) (key : ObjectKey) : List PyStr :=
  [safeModel, ofChars (paddedHexText 10 key.kvRank), ofChars (hexText key.objectGroupId),
      ofChars (bytesHex key.chunkHash)] ++
    if key.cacheSalt = [] then [] else [key.cacheSalt]

/-- The key of the fields; `readModel` takes back what was done to the model name. -/
def keyOfFields (readModel : PyStr → PyStr)
    (safeModel kvRankStr objectGroupStr chunkHashHex cacheSalt : PyStr) : Result ObjectKey := do
  match (chars? chunkHashHex).bind fromHex with
  | none => valueError "non-hexadecimal number found in fromhex() arg"
  | some chunkHash =>
    match (chars? kvRankStr).bind intOfHex with
    | none => valueError s!"invalid literal for int() with base 16: {PyText.reprOf kvRankStr}"
    | some kvRank =>
      match (chars? objectGroupStr).bind intOfHex with
      | none =>
        valueError s!"invalid literal for int() with base 16: {PyText.reprOf objectGroupStr}"
      | some objectGroupId =>
        ObjectKey.make chunkHash (readModel safeModel) kvRank objectGroupId cacheSalt

def objectKeyToString (key : ObjectKey) : Result PyStr := do
  let safeModel ← quote key.modelName
  return joinWith separator (keyFields safeModel key)

def decodeObjectKey (encoded : PyStr) : Result ObjectKey :=
  match splitOn separator encoded with
  | [safeModel, kvRankStr, objectGroupStr, chunkHashHex] =>
    keyOfFields unquote safeModel kvRankStr objectGroupStr chunkHashHex []
  | [safeModel, kvRankStr, objectGroupStr, chunkHashHex, cacheSalt] =>
    keyOfFields unquote safeModel kvRankStr objectGroupStr chunkHashHex cacheSalt
  | _ => valueError s!"Invalid raw-block ObjectKey encoding: {PyText.reprOf encoded}"

structure RawBlockKeySpec where
  encoded : PyStr
  slotIdentity : Nat
  deriving DecidableEq

inductive RawBlockKeyNamespace
  | legacy
  | object
  deriving DecidableEq

section Identity

variable (blake2b : Bytes → Bytes)

/-- `_object_slot_identity`; `blake2b` has a digest of eight bytes. -/
def objectSlotIdentity (encoded : PyStr) : Result Nat := do
  let bytes ← encode encoded
  return Bytes.ofLE (blake2b bytes)

def encodeObjectKey (key : ObjectKey) : Result RawBlockKeySpec := do
  let encoded ← objectKeyToString key
  let slotIdentity ← objectSlotIdentity blake2b encoded
  return ⟨encoded, slotIdentity⟩

/-- `slot_identity_from_encoded_key`; `legacyChunkHash` is the chunk hash of a legacy key. -/
def slotIdentityFromEncodedKey (legacyChunkHash : PyStr → Result Int) (encoded : PyStr) :
    RawBlockKeyNamespace → Result Nat
  | .legacy => do
    let chunkHash ← legacyChunkHash encoded
    return (chunkHash % 2 ^ 64).toNat
  | .object => objectSlotIdentity blake2b encoded

end Identity

def pathSlashReplacement : PyStr := ofChars "-SEP-".toList

def fileExt : PyStr := ofChars ".data".toList

def slash : PyChar := .plain '/'

def objectKeyToFilename (key : ObjectKey) : PyStr :=
  joinWith separator (keyFields (replace [slash] pathSlashReplacement key.modelName) key) ++
    fileExt

/-- `_filename_to_object_key`: a name that cannot be read gives no key. -/
def filenameToObjectKey (filename : PyStr) : Option ObjectKey :=
  if fileExt.isSuffixOf filename then
    let stem := filename.take (filename.length - fileExt.length)
    match splitOn separator stem with
    | [safeModel, kvRankStr, objectGroupStr, chunkHashHex] =>
      (keyOfFields (replace pathSlashReplacement [slash]) safeModel kvRankStr objectGroupStr
        chunkHashHex []).toOption
    | [safeModel, kvRankStr, objectGroupStr, chunkHashHex, cacheSalt] =>
      (keyOfFields (replace pathSlashReplacement [slash]) safeModel kvRankStr objectGroupStr
        chunkHashHex cacheSalt).toOption
    | _ => none
  else none

end Codecs

end LMCache.Keys
