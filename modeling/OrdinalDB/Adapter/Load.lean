import OrdinalDB.Adapter.IdMap

/-!
# Loading an adapter store in Python

`AdapterStore.load` of `adapters/_common.py` on a root with an `adapter.redb`:
it opens the store through Rust, and then reads the payloads, the index path and
the directory again with checks of its own.
-/

namespace OrdinalDB.Adapter

open Json Text Store

variable {Text N : Type}

/-! ## Texts -/

def maxAdapterJsonBytes : Nat := 1024 * 1024

def maxSidecarJsonBytes : Nat := 64 * 1024 * 1024

/-- What the trees and the reports of bundles do not say. -/
structure Surroundings (Text : Type) where
  /-- The number of UTF-8 bytes of a text. -/
  size : Text → Nat
  /-- `OrdinalIndex.load` takes a bundle that verifies; it asks for a sign artifact too. -/
  loads : Bundle → Bool

/-- `json.loads` with the hook that refuses repeated keys, on a top-level object. -/
def loadsDict (json : JsonModule Text) (text : Text) : Option (Members PyNumber) := do
  let raw ← json.tree text
  let value ← raw.toValue (PyNumber.read json.floats)
  guard value.distinct.isSome
  requireMapping value

def loadsStateJson (loads : Text → Option (Members N)) (size : Text → Nat) (limit : Nat)
    (payload : Text) : Option (Members N) := do
  guard (size payload ≤ limit)
  loads payload

/-! ## Index paths -/

/-- `_validate_index_path`, with the place that the path names; `PurePosixPath` writes a path
without empty and `.` components. -/
def locateIndexPath (indexPath : String) : Option Location :=
  let parts := indexPath.toList.splitOn '/'
  if parts.any (· ∈ [[], ['.'], ['.', '.']]) then none
  else if indexPath = indexDir then some .index
  else
    match parts with
    | [first, second] =>
      if String.ofList first = vectorsDir ∧
          (generationIdFromDirName (String.ofList second)).isSome then
        some (.vectors (String.ofList second))
      else none
    | _ => none

/-- `_path_exists_no_follow` finds none of the artifacts. -/
def rejectEmptyLazyVectorArtifacts (disk : Disk) (location : Location) : Bool :=
  (disk.node location).isNone && disk.index.isNone && disk.vectors.isNone

/-! ## Payloads -/

structure AdapterFields where
  adapterName : String
  bits : Nat
  dim : Option Nat
  emptyLazy : Bool
  indexPath : String
  location : Location

def requireDim : Value → Option (Option Nat)
  | .null => some none
  | value => ((asU64 value).filter fun dim => 0 < dim).map some

def readFields (expectedAdapter : Option String) (adapter : Members) : Option AdapterFields := do
  guard (getItem adapter "schema_version" = some (.string "ordinaldb.adapter.v1"))
  let adapterName ← (getItem adapter "adapter").bind asStr
  guard (expectedAdapter.all (adapterName = ·))
  let bits ← ((getItem adapter "bits").bind asU64).filter fun bits => bits = 1 ∨ bits = 2 ∨ bits = 4
  let dim ← (getItem adapter "dim").bind requireDim
  let emptyLazy ← (getItem adapter "empty_lazy").bind asBool
  let indexPath ← (getItem adapter "index_path").bind asStr
  let location ← locateIndexPath indexPath
  pure { adapterName, bits, dim, emptyLazy, indexPath, location }

/-- A dict has no order, so it is the map of its members. -/
def requireMetadata (value : Value N) : Option (Value N) :=
  value.distinct.filter fun read => read.asObject.isSome

def parseStringMap {V : Type} (field schema : String) (read : Value N → Option V)
    (payload : Members N) : Option (Table String V) := do
  guard (requireExactKeys payload ["schema_version", field])
  guard ((getItem payload "schema_version").bind asStr = some schema)
  ((getItem payload field).bind requireMapping).bind (dictItems (withStringId read))

def parseDocuments : Members → Option (Table String String) :=
  parseStringMap "documents" "ordinaldb.adapter.documents.v1" asStr

def parseMetadata : Members N → Option (Table String (Value N)) :=
  parseStringMap "metadata" "ordinaldb.adapter.metadata.v1" requireMetadata

/-! ## Stores -/

structure AdapterStore where
  adapterName : String
  bits : Nat
  /-- The generation that the index comes from. -/
  index : Option (Location × Bundle)
  idMap : IdMap
  slotToU64 : List Nat
  documents : Table String String
  metadata : Table String (Value PyNumber)
  baseGenerationPath : String
  baseCommitToken : StoreRevision

def readIndex (disk : Disk) (loads : Bundle → Bool) (fields : AdapterFields) (hasRecords : Bool) :
    Option (Option (Location × Bundle)) :=
  if fields.emptyLazy then do
    guard (fields.dim = none)
    guard (!hasRecords)
    guard (rejectEmptyLazyVectorArtifacts disk fields.location)
    pure none
  else do
    guard fields.dim.isSome
    let bundle ← (disk.node fields.location).bind Node.bundle
    guard (loads bundle)
    guard (bundle.bits = fields.bits)
    guard (fields.dim = some bundle.dim)
    pure (some (fields.location, bundle))

def validateDimCompatibleWithBits (dim bits : Nat) : Bool :=
  2 ≤ dim && dim ≤ 2 ^ 16 - 1 && dim % Nat.lcm (8 / bits) (2 ^ bits) = 0

def validateConsistency (idMap : IdMap) (slotToU64 : List Nat) (documents : Table String String)
    (metadata : Table String (Value PyNumber)) : Bool :=
  let u64Values := idMap.stringToU64.toList.map Prod.snd
  documents.keys = idMap.stringToU64.keys && metadata.keys = idMap.stringToU64.keys &&
    u64Values.Nodup && (idMap.u64ToSlot.keys.all (· ∈ u64Values) &&
      u64Values.all (· ∈ idMap.u64ToSlot)) &&
    (idMap.u64ToSlot.toList.map Prod.snd).Nodup &&
    idMap.u64ToSlot.toList.all (fun row => slotToU64[row.2]? = some row.1) &&
    u64Values.all (· < idMap.nextU64Id)

/-- `AdapterStore.__init__`. -/
def AdapterStore.init (fields : AdapterFields) (index : Option (Location × Bundle)) (idMap : IdMap)
    (documents : Table String String) (metadata : Table String (Value PyNumber))
    (baseCommitToken : StoreRevision) : Option AdapterStore := do
  guard (fields.dim.all fun dim => validateDimCompatibleWithBits dim fields.bits)
  let slotToU64 ← slotMapFromU64ToSlot idMap.u64ToSlot (index.elim 0 (·.2.vectorCount))
  guard (validateConsistency idMap slotToU64 documents metadata)
  pure {
    adapterName := fields.adapterName
    bits := fields.bits
    index
    idMap
    slotToU64
    documents
    metadata
    baseGenerationPath := fields.indexPath
    baseCommitToken }

/-- The manifest that the second opening reads is far below its limit. -/
def commitTokenFromManifest (manifest : Manifest) : Option StoreRevision := do
  guard (manifest.activeGenerationPath = "" ∨ (locateIndexPath manifest.activeGenerationPath).isSome)
  pure (.fromManifest manifest)

def AdapterStore.load (json : JsonModule Text) (around : Surroundings Text) (disk : Disk)
    (storeFile : StoreFile Text) (expectedAdapter : Option String) : Option AdapterStore := do
  let loads := loadsObject json.codec
  let verified ← openVerified json.codec disk storeFile expectedAdapter
  let adapter ← loadsStateJson loads around.size maxAdapterJsonBytes verified.payloads.adapterJson
  let idMapPayload ←
    loadsStateJson loads around.size maxSidecarJsonBytes verified.payloads.idMapJson
  let documentsPayload ←
    loadsStateJson loads around.size maxSidecarJsonBytes verified.payloads.documentsJson
  let metadataPayload ←
    loadsStateJson (loadsDict json) around.size maxSidecarJsonBytes verified.payloads.metadataJson
  let fields ← readFields expectedAdapter adapter
  let idMap ← parseIdMap idMapPayload
  let documents ← parseDocuments documentsPayload
  let metadata ← parseMetadata metadataPayload
  let baseCommitToken ← commitTokenFromManifest verified.manifest
  let hasRecords := decide
    (idMap.stringToU64 ≠ ∅ ∨ idMap.u64ToSlot ≠ ∅ ∨ documents ≠ ∅ ∨ metadata ≠ ∅)
  let index ← readIndex disk around.loads fields hasRecords
  AdapterStore.init fields index idMap documents metadata baseCommitToken

end OrdinalDB.Adapter
