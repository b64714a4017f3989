import OrdinalDB.Store.Payloads

/-!
# The tables of `adapter.redb`

The twelve redb tables, the rows that the store itself encodes (the manifest,
generation records, gc and audit rows) as records, and the revision token.
-/

namespace OrdinalDB.Store

/-! ## Constants -/

def adapterStoreSchemaVersion : String := "ordinaldb.adapter_store.v1"

def keyFormatV1 : String := "string_or_u64_v1"

def payloadFormatV1 : String := "json_v1"

def generationStateActive : String := "active"

def generationStateRetired : String := "retired"

def generationStateReclaimable : String := "reclaimable"

def generationStateDeleting : String := "deleting"

def generationStateDeleted : String := "deleted"

inductive StoreOrigin
  | created
  | importedLegacyJson
  | upgradedSchema
deriving DecidableEq, Repr

def StoreOrigin.asStr : StoreOrigin → String
  | created => "created"
  | importedLegacyJson => "imported_legacy_json"
  | upgradedSchema => "upgraded_schema"

/-! ## Rows -/

/-- The `table_counts` of a manifest, and the sizes they are compared with. -/
structure TableCounts where
  metaRows : Nat
  jsonPayloads : Nat
  stringToU64 : Nat
  u64ToString : Nat
  u64ToSlot : Nat
  documents : Nat
  metadata : Nat
  generations : Nat
  pendingBatches : Nat
  tombstones : Nat
  gcQueue : Nat
  auditLog : Nat
deriving DecidableEq, Repr

/-- A manifest; a field that no check requires is optional. -/
structure Manifest where
  schemaVersion : String
  storeUuid : String
  adapterName : String
  createdAtUnixMs : Option Nat
  updatedAtUnixMs : Option Nat
  commitSequence : Nat
  bits : Nat
  dim : Option Nat
  emptyLazy : Bool
  activeGenerationId : Nat
  activeGenerationPath : String
  activeGenerationManifestSha256 : Option String
  activeGenerationManifestSizeBytes : Option Nat
  vectorCount : Nat
  activeIdCount : Nat
  tombstoneCount : Nat
  nextU64Id : Nat
  tableCounts : TableCounts
  keyFormat : String
  payloadFormat : String
  buildStatus : String
  complete : Bool
  previousGenerationId : Option Nat
  origin : String
  migratedFromJsonSidecars : Bool
deriving DecidableEq, Repr

structure GenerationRecord where
  generationId : Nat
  path : Option String
  state : String
  manifestSha256 : Option String
  manifestSizeBytes : Option Nat
  bits : Option Nat
  dim : Option Nat
  vectorCount : Option Nat
  retiredByCommitSequence : Option Nat
deriving DecidableEq, Repr

structure GcRow where
  generationId : Option Nat
  path : String
  state : String
  reason : String
  recordedAtUnixMs : Nat
deriving DecidableEq, Repr

inductive AuditRow
  | legacySnapshotWritten (commitSequence generationId : Nat) (activeGenerationPath : String)
      (createdAtUnixMs : Nat)
  | metadataPatched (commitSequence patchedIdCount activeGenerationId : Nat)
      (activeGenerationPath : String) (createdAtUnixMs : Nat)
  | generationGcRecorded (commitSequence updateCount createdAtUnixMs : Nat)
deriving DecidableEq, Repr

/-- The tables; `none` is a row whose text is not one of the store's own. -/
structure Tables (Text : Type) where
  metaRows : Table String (Option Manifest)
  jsonPayloads : Table String Text
  stringToU64 : Table String Nat
  u64ToString : Table Nat String
  u64ToSlot : Table Nat Nat
  documents : Table Nat String
  metadata : Table Nat Text
  generations : Table Nat GenerationRecord
  pendingBatches : Table String Text
  tombstones : Table Nat Text
  gcQueue : Table Nat (Option GcRow)
  auditLog : Table Nat (Option AuditRow)

variable {Text : Type}

def Tables.empty : Tables Text := ⟨∅, ∅, ∅, ∅, ∅, ∅, ∅, ∅, ∅, ∅, ∅, ∅⟩

def Tables.manifest (tables : Tables Text) : Option Manifest := tables.metaRows["manifest"]?.join

def Tables.counts (tables : Tables Text) : TableCounts where
  metaRows := tables.metaRows.size
  jsonPayloads := tables.jsonPayloads.size
  stringToU64 := tables.stringToU64.size
  u64ToString := tables.u64ToString.size
  u64ToSlot := tables.u64ToSlot.size
  documents := tables.documents.size
  metadata := tables.metadata.size
  generations := tables.generations.size
  pendingBatches := tables.pendingBatches.size
  tombstones := tables.tombstones.size
  gcQueue := tables.gcQueue.size
  auditLog := tables.auditLog.size

/-- The database file of a root; `blank` is a database without tables. -/
inductive StoreFile (Text : Type)
  | missing
  | blank
  | tables (tables : Tables Text)

/-! ## Revisions -/

structure StoreRevision where
  storeUuid : String
  commitSequence : Nat
  activeGenerationId : Nat
  activeGenerationPath : String
  activeGenerationManifestSha256 : Option String
  activeIdCount : Nat
deriving DecidableEq, Repr

def StoreRevision.fromManifest (manifest : Manifest) : StoreRevision where
  storeUuid := manifest.storeUuid
  commitSequence := manifest.commitSequence
  activeGenerationId := manifest.activeGenerationId
  activeGenerationPath := manifest.activeGenerationPath
  activeGenerationManifestSha256 := manifest.activeGenerationManifestSha256
  activeIdCount := manifest.activeIdCount

structure VerifiedAdapterStore (Text : Type) where
  manifest : Manifest
  payloads : LegacyPayloads Text

/-- A stale revision is `false`. -/
def verifyExpectedRevision (current : Option (VerifiedAdapterStore Text))
    (expected : Option StoreRevision) : Bool :=
  match current, expected with
  | none, none => true
  | some store, some expected => StoreRevision.fromManifest store.manifest = expected
  | _, _ => false

/-! ## Store identity -/

def hexDigit (n : Nat) : Char := if n < 10 then Char.ofNat (48 + n) else Char.ofNat (87 + n)

def hexByte (b : UInt8) : List Char := [hexDigit (b.toNat / 16), hexDigit (b.toNat % 16)]

/-- `random_store_uuid` on the bytes that the system hands out. -/
def randomStoreUuid (bytes : Fin 16 → UInt8) : String :=
  let byte (i : Fin 16) : List Char :=
    hexByte (if i = 6 then bytes i &&& 0x0f ||| 0x40
      else if i = 8 then bytes i &&& 0x3f ||| 0x80 else bytes i)
  String.ofList (byte 0 ++ byte 1 ++ byte 2 ++ byte 3 ++ '-' :: (byte 4 ++ byte 5) ++
    '-' :: (byte 6 ++ byte 7) ++ '-' :: (byte 8 ++ byte 9) ++
    '-' :: (byte 10 ++ byte 11 ++ byte 12 ++ byte 13 ++ byte 14 ++ byte 15))

def isHexDigit (c : Char) : Bool :=
  ('0' ≤ c && c ≤ '9') || ('a' ≤ c && c ≤ 'f') || ('A' ≤ c && c ≤ 'F')

def validateStoreUuid (value : String) : Bool :=
  let text := value.toList
  text.length = 36 && text[14]? = some '4' &&
    [some '8', some '9', some 'a', some 'b'].contains text[19]? &&
    text.zipIdx.all fun (c, position) =>
      if position ∈ [8, 13, 18, 23] then c = '-' else isHexDigit c

end OrdinalDB.Store
