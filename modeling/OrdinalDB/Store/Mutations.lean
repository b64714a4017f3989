import OrdinalDB.Store.Verify

/-!
# Mutations of an adapter store

`write_legacy_snapshot_inner`, `commit_metadata_patch` and
`record_generation_gc_inner` of `ordinaldb-adapter-store/src/lib.rs`, each under
the writer lock: the checks before the write transaction, the transaction and
the verified open of the result.

A mutation maps the database file to its answer and the file that it leaves;
`none` is an error. File operations and transactions succeed.
-/

namespace OrdinalDB.Store

open Text (isWhitespace)

variable {Text : Type}

/-- What one call finds: the vector artifacts, the readings of the clock in the order in which
it takes them, and the random bytes. -/
structure Env where
  disk : Disk
  now : Nat → Nat
  random : Fin 16 → UInt8

def unixMs (now : Nat) : Nat := min now (u64Bound - 1)

/-- `u64::checked_add`. -/
def checkedAdd (a b : Nat) : Option Nat := if a + b < u64Bound then some (a + b) else none

/-- The answer of a call, and the file that it leaves. -/
abbrev Outcome (Text : Type) := Option (VerifiedAdapterStore Text) × StoreFile Text

/-- The end of every mutation: the transaction is committed and the store opened again. -/
def reopen (codec : JsonCodec Text) (env : Env) (tables : Tables Text) : Outcome Text :=
  (openVerified codec env.disk (.tables tables) none, .tables tables)

/-! ## Snapshots -/

def snapshotCommitSequence (previousManifest : Option Manifest) : Option Nat :=
  match previousManifest with
  | some manifest => checkedAdd manifest.commitSequence 1
  | none => some 1

def adapterStoreManifest (env : Env) (parsed : ParsedPayloads) (generation : GenerationCheckpoint)
    (tableCounts : TableCounts) (previousManifest : Option Manifest) (origin : StoreOrigin) :
    Option Manifest := do
  let now := unixMs (env.now 0)
  let commitSequence ← snapshotCommitSequence previousManifest
  pure {
    schemaVersion := adapterStoreSchemaVersion
    storeUuid := previousManifest.elim (randomStoreUuid env.random) (·.storeUuid)
    adapterName := parsed.adapterName
    createdAtUnixMs := some ((previousManifest.bind (·.createdAtUnixMs)).getD now)
    updatedAtUnixMs := some now
    commitSequence
    bits := parsed.bits
    dim := parsed.dim
    emptyLazy := parsed.emptyLazy
    activeGenerationId := generation.id
    activeGenerationPath := generation.path
    activeGenerationManifestSha256 := generation.manifestSha256
    activeGenerationManifestSizeBytes := generation.manifestSizeBytes
    vectorCount := generation.vectorCount
    activeIdCount := parsed.stringToU64.size
    tombstoneCount := 0
    nextU64Id := parsed.nextU64Id
    tableCounts
    keyFormat := keyFormatV1
    payloadFormat := payloadFormatV1
    buildStatus := "complete"
    complete := true
    previousGenerationId := previousManifest.map (·.activeGenerationId)
    origin := previousManifest.elim origin.asStr (·.origin)
    migratedFromJsonSidecars := previousManifest.elim false (·.migratedFromJsonSidecars) }

/-- A count of the previous manifest. -/
def previousCount (previousManifest : Option Manifest) (count : TableCounts → Nat) : Nat :=
  previousManifest.elim 0 fun manifest => count manifest.tableCounts

def snapshotGenerationCount (parsed : ParsedPayloads) (generation : GenerationCheckpoint)
    (previousManifest : Option Manifest) : Option Nat :=
  let generationAlreadyRecorded : Bool :=
    previousManifest.map (·.activeGenerationId) = some generation.id
  if parsed.emptyLazy || generationAlreadyRecorded then
    some (previousCount previousManifest (·.generations))
  else checkedAdd (previousCount previousManifest (·.generations)) 1

def snapshotTableCounts (parsed : ParsedPayloads) (generation : GenerationCheckpoint)
    (previousManifest : Option Manifest) : Option TableCounts := do
  let generationCount ← snapshotGenerationCount parsed generation previousManifest
  let auditCount ← checkedAdd (previousCount previousManifest (·.auditLog)) 1
  pure {
    metaRows := 1
    jsonPayloads := 4
    stringToU64 := parsed.stringToU64.size
    u64ToString := parsed.stringToU64.size
    u64ToSlot := parsed.u64ToSlot.size
    documents := parsed.documents.size
    metadata := parsed.metadata.size
    generations := generationCount
    pendingBatches := previousCount previousManifest (·.pendingBatches)
    tombstones := previousCount previousManifest (·.tombstones)
    gcQueue := previousCount previousManifest (·.gcQueue)
    auditLog := auditCount }

/-- What a snapshot has settled before it writes. -/
structure SnapshotPlan where
  parsed : ParsedPayloads
  generation : GenerationCheckpoint
  manifest : Manifest

/-- `write_legacy_snapshot_inner` up to the write. -/
def prepareSnapshot (codec : JsonCodec Text) (env : Env) (storeFile : StoreFile Text)
    (expected : Option StoreRevision) (payloads : LegacyPayloads Text) (origin : StoreOrigin) :
    Option SnapshotPlan := do
  let parsed ← ParsedPayloads.parse codec payloads
  let generation ← activeGenerationCheckpoint env.disk parsed none
  guard (parsed.validateAgainstGeneration generation)
  let previousStore ← currentVerifiedStore codec env.disk storeFile
    (if parsed.emptyLazy then none else some parsed.indexPath)
  guard (verifyExpectedRevision previousStore expected)
  let previousManifest := previousStore.map (·.manifest)
  let tableCounts ← snapshotTableCounts parsed generation previousManifest
  let manifest ←
    adapterStoreManifest env parsed generation tableCounts previousManifest origin
  pure { parsed, generation, manifest }

/-- Drop the rows whose keys are not kept, then write the given ones. -/
def retainAndInsert {K V : Type} [Ord K] [Std.TransOrd K] (table : Table K V) (keep : K → Bool)
    (rows : List (K × V)) : Table K V :=
  (table.filter fun key _ => keep key).insertMany rows

/-- The rows of a map from strings, under their u64 ids. -/
def ParsedPayloads.u64Rows {V : Type} (parsed : ParsedPayloads) (values : Table String V) :
    Option (List (Nat × V)) :=
  values.toList.mapM fun (id, value) => (parsed.u64ForString id).map fun u64 => (u64, value)

def retireGenerationRecord (record : GenerationRecord) (commitSequence : Nat) :
    Option GenerationRecord :=
  if !isValidGenerationRecordState record.state then none
  else if record.state = generationStateRetired then some record
  else some { record with
    state := generationStateRetired
    retiredByCommitSequence := some commitSequence }

/-- Retire every other generation and write the row of the active one. -/
def activateGeneration (generations : Table Nat GenerationRecord)
    (generation : GenerationCheckpoint) (commitSequence : Nat) :
    Option (Table Nat GenerationRecord) := do
  let retiredRecords ← (generations.toList.filter (·.1 ≠ generation.id)).mapM
    fun (id, record) => (retireGenerationRecord record commitSequence).map fun record => (id, record)
  pure ((generations.insertMany retiredRecords).insert generation.id generation.json)

def snapshotGenerations (generations : Table Nat GenerationRecord) (plan : SnapshotPlan) :
    Option (Table Nat GenerationRecord) :=
  if plan.parsed.emptyLazy then some generations
  else activateGeneration generations plan.generation plan.manifest.commitSequence

def writeSnapshotTransaction (codec : JsonCodec Text) (env : Env) (tables : Tables Text)
    (payloads : LegacyPayloads Text) (plan : SnapshotPlan) : Option (Tables Text) := do
  let parsed := plan.parsed
  let commitSequence := plan.manifest.commitSequence
  let documents ← parsed.u64Rows parsed.documents
  let metadata ← parsed.u64Rows parsed.metadata
  let generations ← snapshotGenerations tables.generations plan
  pure {
    metaRows := retainAndInsert tables.metaRows (fun _ => false)
      [("manifest", some plan.manifest)]
    jsonPayloads := retainAndInsert tables.jsonPayloads (fun _ => false)
      [("adapter", payloads.adapterJson), ("id_map", payloads.idMapJson),
        ("documents", payloads.documentsJson), ("metadata", payloads.metadataJson)]
    stringToU64 := retainAndInsert tables.stringToU64 (· ∈ parsed.stringToU64)
      parsed.stringToU64.toList
    u64ToString := retainAndInsert tables.u64ToString (· ∈ parsed.u64Ids)
      (parsed.stringToU64.toList.map Prod.swap)
    u64ToSlot := retainAndInsert tables.u64ToSlot (· ∈ parsed.u64ToSlot) parsed.u64ToSlot.toList
    documents := retainAndInsert tables.documents (· ∈ documents.map Prod.fst) documents
    metadata := retainAndInsert tables.metadata (· ∈ metadata.map Prod.fst)
      (metadata.map fun (id, value) => (id, codec.write value))
    generations
    pendingBatches := tables.pendingBatches
    tombstones := tables.tombstones
    gcQueue := tables.gcQueue
    auditLog := tables.auditLog.insert commitSequence
      (some (.legacySnapshotWritten commitSequence plan.generation.id plan.generation.path
        (env.now 1))) }

/-- The tables of the database, created when the file is missing. -/
def StoreFile.rows : StoreFile Text → Tables Text
  | .tables rows => rows
  | _ => .empty

/-- The file once the database is open for writing. -/
def StoreFile.created : StoreFile Text → StoreFile Text
  | .missing => .blank
  | storeFile => storeFile

def writeLegacySnapshotInner (codec : JsonCodec Text) (env : Env) (storeFile : StoreFile Text)
    (expected : Option StoreRevision) (payloads : LegacyPayloads Text) (origin : StoreOrigin) :
    Outcome Text :=
  match prepareSnapshot codec env storeFile expected payloads origin with
  | none => (none, storeFile)
  | some plan =>
    match writeSnapshotTransaction codec env storeFile.rows payloads plan with
    | none => (none, storeFile.created)
    | some tables => reopen codec env tables

/-! ## Metadata patches -/

/-- A whole-object replacement; the values are maps throughout. -/
structure MetadataPatch where
  id : String
  metadata : Object
  canonical : ∀ (key : String) (value : Json.Value), metadata[key]? = some value → value.Canonical

def MetadataPatch.value (patch : MetadataPatch) : Json.Value := .ofTable patch.metadata

/-- The loop over the patches. -/
def ParsedPayloads.patchMetadata (parsed : ParsedPayloads) :
    List MetadataPatch → Option ParsedPayloads
  | [] => some parsed
  | patch :: rest =>
    if patch.id ≠ "" ∧ patch.id ∈ parsed.stringToU64 then
      patchMetadata { parsed with metadata := parsed.metadata.insert patch.id patch.value } rest
    else none

def metadataPayloadJson (codec : JsonCodec Text) (parsed : ParsedPayloads) : Text :=
  codec.write (.ofTable (metadataObject parsed.metadata))

def updateMetadataPatchManifest (manifest : Manifest) (commitSequence auditCount now : Nat) :
    Manifest :=
  { manifest with
    commitSequence
    updatedAtUnixMs := some (unixMs now)
    tableCounts := { manifest.tableCounts with auditLog := auditCount } }

/-- The metadata rows that the patches rewrite. -/
def ParsedPayloads.patchRows (parsed : ParsedPayloads) (patches : List MetadataPatch) :
    Option (List (Nat × Json.Value)) :=
  patches.mapM fun patch => do
    let u64 ← parsed.u64ForString patch.id
    let value ← parsed.metadata[patch.id]?
    pure (u64, value)

/-- `commit_metadata_patch` up to the commit: the tables that its transaction leaves. -/
def patchTransaction (codec : JsonCodec Text) (env : Env) (storeFile : StoreFile Text)
    (expected : StoreRevision) (patches : List MetadataPatch) : Option (Tables Text) := do
  guard (patches ≠ [])
  let current ← (currentVerifiedStore codec env.disk storeFile none).join
  guard (verifyExpectedRevision (some current) (some expected))
  let parsed ← ParsedPayloads.parse codec current.payloads
  let parsed ← parsed.patchMetadata patches
  guard parsed.ValidMaps
  let commitSequence ← checkedAdd current.manifest.commitSequence 1
  let auditCount ← checkedAdd current.manifest.tableCounts.auditLog 1
  let manifest :=
    updateMetadataPatchManifest current.manifest commitSequence auditCount (env.now 0)
  let rows ← parsed.patchRows patches
  let tables := storeFile.rows
  pure { tables with
    metaRows := tables.metaRows.insert "manifest" (some manifest)
    jsonPayloads := tables.jsonPayloads.insert "metadata" (metadataPayloadJson codec parsed)
    metadata := tables.metadata.insertMany
      (rows.map fun (id, value) => (id, codec.write value))
    auditLog := tables.auditLog.insert commitSequence
      (some (.metadataPatched commitSequence patches.length manifest.activeGenerationId
        manifest.activeGenerationPath (env.now 1))) }

def commitMetadataPatch (codec : JsonCodec Text) (env : Env) (storeFile : StoreFile Text)
    (expected : StoreRevision) (patches : List MetadataPatch) : Outcome Text :=
  match patchTransaction codec env storeFile expected patches with
  | none => (none, storeFile)
  | some tables => reopen codec env tables

/-! ## Generation gc records -/

structure GenerationGcUpdate where
  generationId : Option Nat
  path : String
  state : String
  reason : String
deriving DecidableEq, Repr

def isValidGenerationLifecycleState (state : String) : Bool :=
  state ∈ [generationStateActive, generationStateRetired, generationStateReclaimable,
    generationStateDeleting, generationStateDeleted]

def validateGcUpdate (update : GenerationGcUpdate) : Bool :=
  validateRelativePath update.path && update.path ≠ indexDir &&
    isValidGenerationLifecycleState update.state && !update.reason.toList.all isWhitespace

def gcUpdateJson (update : GenerationGcUpdate) (now : Nat) : GcRow where
  generationId := update.generationId
  path := update.path
  state := update.state
  reason := update.reason
  recordedAtUnixMs := now

def updateGcManifestCounts (manifest : Manifest) (commitSequence gcCount auditCount now : Nat) :
    Manifest :=
  { manifest with
    commitSequence
    updatedAtUnixMs := some (unixMs now)
    tableCounts := { manifest.tableCounts with gcQueue := gcCount, auditLog := auditCount } }

/-- The rows of the updates, numbered after the rows that are there. -/
def gcRows (env : Env) (previousGcCount : Nat) (updates : List GenerationGcUpdate) :
    List (Nat × Option GcRow) :=
  updates.zipIdx.map fun (update, offset) =>
    (previousGcCount + offset + 1, some (gcUpdateJson update (env.now (offset + 1))))

/-- `record_generation_gc_inner` on at least one update, up to the commit. -/
def gcTransaction (codec : JsonCodec Text) (env : Env) (storeFile : StoreFile Text)
    (expected : Option StoreRevision) (updates : List GenerationGcUpdate) :
    Option (Tables Text) := do
  guard (updates.all validateGcUpdate)
  let current ← (currentVerifiedStore codec env.disk storeFile none).join
  guard (verifyExpectedRevision (some current) expected)
  let commitSequence ← checkedAdd current.manifest.commitSequence 1
  let previousGcCount := current.manifest.tableCounts.gcQueue
  let gcCount ← checkedAdd previousGcCount updates.length
  let auditCount ← checkedAdd current.manifest.tableCounts.auditLog 1
  let tables := storeFile.rows
  pure { tables with
    metaRows := tables.metaRows.insert "manifest"
      (some (updateGcManifestCounts current.manifest commitSequence gcCount auditCount (env.now 0)))
    gcQueue := tables.gcQueue.insertMany (gcRows env previousGcCount updates)
    auditLog := tables.auditLog.insert commitSequence
      (some (.generationGcRecorded commitSequence updates.length
        (env.now (updates.length + 1)))) }

/-- Without updates nothing is written, and the expected revision is not looked at. -/
def recordGenerationGcInner (codec : JsonCodec Text) (env : Env) (storeFile : StoreFile Text)
    (expected : Option StoreRevision) (updates : List GenerationGcUpdate) : Outcome Text :=
  if updates = [] then ((currentVerifiedStore codec env.disk storeFile none).join, storeFile)
  else
    match gcTransaction codec env storeFile expected updates with
    | none => (none, storeFile)
    | some tables => reopen codec env tables

/-! ## Calls -/

inductive AdapterMutation (Text : Type)
  | replaceLegacySnapshot (payloads : LegacyPayloads Text)
  | patchMetadata (patches : List MetadataPatch)

inductive Call (Text : Type)
  | writeLegacySnapshot (expected : Option StoreRevision) (payloads : LegacyPayloads Text)
      (origin : StoreOrigin)
  | commit (expected : StoreRevision) (mutation : AdapterMutation Text)
  | recordGenerationGc (expected : Option StoreRevision) (updates : List GenerationGcUpdate)

def commitInner (codec : JsonCodec Text) (env : Env) (storeFile : StoreFile Text)
    (expected : StoreRevision) : AdapterMutation Text → Outcome Text
  | .replaceLegacySnapshot payloads =>
    writeLegacySnapshotInner codec env storeFile (some expected) payloads .created
  | .patchMetadata patches => commitMetadataPatch codec env storeFile expected patches

/-- One call under the writer lock. -/
def Call.run (codec : JsonCodec Text) (env : Env) (storeFile : StoreFile Text) :
    Call Text → Outcome Text
  | .writeLegacySnapshot expected payloads origin =>
    writeLegacySnapshotInner codec env storeFile expected payloads origin
  | .commit expected mutation => commitInner codec env storeFile expected mutation
  | .recordGenerationGc expected updates =>
    recordGenerationGcInner codec env storeFile expected updates

end OrdinalDB.Store
