import OrdinalDB.Store.Tables

/-!
# Opening a verified store

`open_verified` of `ordinaldb-adapter-store/src/lib.rs` and the checks it is
made of. `none` and `false` are the errors.

`Opens` lists what an accepted store satisfies (`openVerified_eq_some`).
-/

namespace OrdinalDB.Store

variable {Text : Type}

/-! ## The active generation -/

structure GenerationCheckpoint where
  id : Nat
  path : String
  emptyLazy : Bool
  bits : Nat
  dim : Nat
  vectorCount : Nat
  manifestSha256 : Option String
  manifestSizeBytes : Option Nat
deriving DecidableEq, Repr

/-- The `json` of a checkpoint: its row in the generations table. -/
def GenerationCheckpoint.json (generation : GenerationCheckpoint) : GenerationRecord where
  generationId := generation.id
  path := some generation.path
  state := generationStateActive
  manifestSha256 := generation.manifestSha256
  manifestSizeBytes := generation.manifestSizeBytes
  bits := some generation.bits
  dim := some generation.dim
  vectorCount := some generation.vectorCount
  retiredByCommitSequence := none

def activeGenerationCheckpoint (disk : Disk) (parsed : ParsedPayloads)
    (allowedPrepared : Option String) : Option GenerationCheckpoint := do
  if parsed.emptyLazy then
    guard (noVectorArtifacts disk parsed.indexPath allowedPrepared)
    pure {
      id := 0
      path := ""
      emptyLazy := true
      bits := parsed.bits
      dim := 0
      vectorCount := 0
      manifestSha256 := none
      manifestSizeBytes := none }
  else
    let bundle ← disk.bundle parsed.indexPath
    let id ← generationIdFromIndexPath parsed.indexPath
    pure {
      id := id
      path := parsed.indexPath
      emptyLazy := false
      bits := bundle.bits
      dim := bundle.dim
      vectorCount := bundle.vectorCount
      manifestSha256 := some bundle.manifestSha256
      manifestSizeBytes := some bundle.manifestSizeBytes }

def ParsedPayloads.validateAgainstGeneration (parsed : ParsedPayloads)
    (generation : GenerationCheckpoint) : Bool :=
  parsed.emptyLazy = generation.emptyLazy &&
    if parsed.emptyLazy then
      parsed.dim = none && parsed.stringToU64 = ∅ && parsed.u64ToSlot = ∅ &&
        parsed.documents = ∅ && parsed.metadata = ∅
    else
      parsed.indexPath = generation.path && parsed.bits = generation.bits &&
        parsed.dim = some generation.dim &&
        parsed.stringToU64.size = generation.vectorCount &&
        parsed.u64ToSlot.size = generation.vectorCount &&
        parsed.u64ToSlot.toList.all fun row => row.2 < generation.vectorCount

/-! ## Checks on the manifest -/

def validateStoreOrigin (value : String) : Bool :=
  value ∈ ["created", "imported_legacy_json", "upgraded_schema"]

def verifyManifestShape (manifest : Manifest) (expectedAdapter : Option String) : Bool :=
  manifest.schemaVersion = adapterStoreSchemaVersion && validateStoreUuid manifest.storeUuid &&
    validateStoreOrigin manifest.origin && manifest.keyFormat = keyFormatV1 &&
    manifest.payloadFormat = payloadFormatV1 && manifest.buildStatus = "complete" &&
    manifest.complete && expectedAdapter.all (manifest.adapterName = ·)

def verifyManifestPayloads (manifest : Manifest) (parsed : ParsedPayloads) : Bool :=
  manifest.adapterName = parsed.adapterName && manifest.bits = parsed.bits &&
    manifest.dim = parsed.dim && manifest.emptyLazy = parsed.emptyLazy &&
    manifest.activeIdCount = parsed.stringToU64.size && manifest.nextU64Id = parsed.nextU64Id &&
    manifest.tombstoneCount = 0

def verifyManifestGeneration (manifest : Manifest) (generation : GenerationCheckpoint) : Bool :=
  manifest.activeGenerationId = generation.id &&
    manifest.activeGenerationPath = generation.path &&
    manifest.vectorCount = generation.vectorCount &&
    if generation.emptyLazy then manifest.emptyLazy
    else
      generation.manifestSha256.isSome &&
        manifest.activeGenerationManifestSha256 = generation.manifestSha256 &&
        manifest.activeGenerationManifestSizeBytes = some (generation.manifestSizeBytes.getD 0)

def verifyTableCounts (tables : Tables Text) (manifest : Manifest) : Bool :=
  manifest.tableCounts = tables.counts

/-! ## Checks on the tables -/

def ParsedPayloads.reverse (parsed : ParsedPayloads) : Table Nat String :=
  (∅ : Table Nat String).insertMany (parsed.stringToU64.toList.map Prod.swap)

def verifyTablesMatchPayloads (codec : JsonCodec Text) (tables : Tables Text)
    (parsed : ParsedPayloads) : Bool :=
  tables.stringToU64 = parsed.stringToU64 && tables.u64ToString = parsed.reverse &&
    tables.u64ToSlot = parsed.u64ToSlot &&
    (parsed.documents.toList.all fun (id, document) =>
      (parsed.u64ForString id).bind (tables.documents[·]?) = some document) &&
    parsed.metadata.toList.all fun (id, value) =>
      (((parsed.u64ForString id).bind (tables.metadata[·]?)).bind (parseJsonObject codec)).any
        (·.equals value)

def isValidGenerationRecordState (state : String) : Bool :=
  state = generationStateActive || state = generationStateRetired

def verifyGenerationRecords (generations : Table Nat GenerationRecord)
    (active : GenerationCheckpoint) : Bool :=
  (generations.toList.all fun (id, record) =>
    record.generationId = id && isValidGenerationRecordState record.state &&
      if record.state = generationStateActive then id = active.id && record.path = some active.path
      else id ≠ active.id) &&
  (generations.toList.countP fun row => row.2.state = generationStateActive) =
    if active.emptyLazy then 0 else 1

/-! ## Opening -/

def loadPayloads (jsonPayloads : Table String Text) : Option (LegacyPayloads Text) := do
  let adapterJson ← jsonPayloads["adapter"]?
  let idMapJson ← jsonPayloads["id_map"]?
  let documentsJson ← jsonPayloads["documents"]?
  let metadataJson ← jsonPayloads["metadata"]?
  pure { adapterJson, idMapJson, documentsJson, metadataJson }

/-- The body of `open_verified_at_store_file`, on the tables of the database. -/
def openTables (codec : JsonCodec Text) (disk : Disk) (tables : Tables Text)
    (expectedAdapter allowedPrepared : Option String) : Option (VerifiedAdapterStore Text) := do
  let manifest ← tables.manifest
  guard (verifyManifestShape manifest expectedAdapter)
  let payloads ← loadPayloads tables.jsonPayloads
  let parsed ← ParsedPayloads.parse codec payloads
  guard (verifyManifestPayloads manifest parsed)
  guard (verifyTableCounts tables manifest)
  let generation ← activeGenerationCheckpoint disk parsed allowedPrepared
  guard (verifyTablesMatchPayloads codec tables parsed)
  guard (verifyGenerationRecords tables.generations generation)
  guard (parsed.validateAgainstGeneration generation)
  guard (verifyManifestGeneration manifest generation)
  pure { manifest, payloads }

def openVerifiedAtStoreFile (codec : JsonCodec Text) (disk : Disk) (storeFile : StoreFile Text)
    (expectedAdapter allowedPrepared : Option String) : Option (VerifiedAdapterStore Text) :=
  match storeFile with
  | .missing | .blank => none
  | .tables tables => openTables codec disk tables expectedAdapter allowedPrepared

def openVerified (codec : JsonCodec Text) (disk : Disk) (storeFile : StoreFile Text)
    (expectedAdapter : Option String) : Option (VerifiedAdapterStore Text) :=
  openVerifiedAtStoreFile codec disk storeFile expectedAdapter none

/-- The outer option is the error; a missing file is no store. -/
def currentVerifiedStore (codec : JsonCodec Text) (disk : Disk) (storeFile : StoreFile Text)
    (allowedPrepared : Option String) : Option (Option (VerifiedAdapterStore Text)) :=
  match storeFile with
  | .missing => some none
  | _ => (openVerifiedAtStoreFile codec disk storeFile none allowedPrepared).map some

/-! ## What opening accepts -/

/-- The tables hold a store that opens with these payloads and this generation. -/
structure Opens (codec : JsonCodec Text) (disk : Disk) (tables : Tables Text)
    (expectedAdapter allowedPrepared : Option String) (store : VerifiedAdapterStore Text)
    (parsed : ParsedPayloads) (generation : GenerationCheckpoint) : Prop where
  manifest : tables.manifest = some store.manifest
  shape : verifyManifestShape store.manifest expectedAdapter
  payloads : loadPayloads tables.jsonPayloads = some store.payloads
  parses : ParsedPayloads.parse codec store.payloads = some parsed
  manifestPayloads : verifyManifestPayloads store.manifest parsed
  counts : store.manifest.tableCounts = tables.counts
  checkpoint : activeGenerationCheckpoint disk parsed allowedPrepared = some generation
  rows : verifyTablesMatchPayloads codec tables parsed
  generations : verifyGenerationRecords tables.generations generation
  validated : parsed.validateAgainstGeneration generation
  manifestGeneration : verifyManifestGeneration store.manifest generation

theorem openTables_eq_some {codec : JsonCodec Text} {disk : Disk} {tables : Tables Text}
    {expectedAdapter allowedPrepared : Option String} {store : VerifiedAdapterStore Text} :
    openTables codec disk tables expectedAdapter allowedPrepared = some store ↔
      ∃ parsed generation,
        Opens codec disk tables expectedAdapter allowedPrepared store parsed generation := by
  constructor
  · intro h
    simp only [openTables, Option.bind_eq_bind, Option.bind_eq_some_iff, Option.guard_eq_some',
      Option.pure_def, Option.some.injEq, verifyTableCounts, decide_eq_true_eq,
      exists_const] at h
    obtain ⟨manifest, hmanifest, hshape, payloads, hpayloads, parsed, hparsed, hfields, hcounts,
      generation, hgeneration, hrows, hrecords, hvalid, hactive, rfl⟩ := h
    exact ⟨parsed, generation, hmanifest, hshape, hpayloads, hparsed, hfields, hcounts,
      hgeneration, hrows, hrecords, hvalid, hactive⟩
  · rintro ⟨parsed, generation, h⟩
    simp [openTables, h.manifest, h.shape, h.payloads, h.parses, h.manifestPayloads,
      verifyTableCounts, h.counts, h.checkpoint, h.rows, h.generations, h.validated,
      h.manifestGeneration]

/-- Tables that their manifest miscounts open under no vector artifacts. -/
theorem openTables_eq_none {codec : JsonCodec Text} {tables : Tables Text} {manifest : Manifest}
    (hmanifest : tables.manifest = some manifest) (hcounts : manifest.tableCounts ≠ tables.counts)
    (disk : Disk) (allowedPrepared : Option String) :
    openTables codec disk tables none allowedPrepared = none := by
  refine Option.eq_none_iff_forall_ne_some.mpr fun store hstore => ?_
  obtain ⟨parsed, generation, hopens⟩ := openTables_eq_some.mp hstore
  obtain rfl := Option.some.inj (hmanifest.symm.trans hopens.manifest)
  exact hcounts hopens.counts

/-- A current store is a verified database, or the file is missing. -/
theorem currentVerifiedStore_eq_some {codec : JsonCodec Text} {disk : Disk}
    {storeFile : StoreFile Text} {allowedPrepared : Option String}
    {store : Option (VerifiedAdapterStore Text)}
    (h : currentVerifiedStore codec disk storeFile allowedPrepared = some store) :
    storeFile = .missing ∧ store = none ∨
      ∃ tables verified, storeFile = .tables tables ∧ store = some verified ∧
        openTables codec disk tables none allowedPrepared = some verified := by
  cases storeFile with
  | missing => exact .inl ⟨rfl, (Option.some.inj h).symm⟩
  | blank => cases h
  | tables tables =>
    obtain ⟨verified, hverified, rfl⟩ := Option.map_eq_some_iff.mp h
    exact .inr ⟨tables, verified, rfl, rfl, hverified⟩

/-! ## Rows of the payloads -/

theorem ParsedPayloads.u64ForString_of_keys {parsed : ParsedPayloads} {V : Type}
    {values : Table String V} {id : String} {value : V}
    (hkeys : values.keys = parsed.stringToU64.keys) (hvalue : values[id]? = some value) :
    ∃ u64, parsed.u64ForString id = some u64 := by
  refine Option.isSome_iff_exists.mp (Std.ExtTreeMap.mem_iff_isSome_getElem?.mp ?_)
  rw [← Std.ExtTreeMap.mem_keys, ← hkeys, Std.ExtTreeMap.mem_keys,
    Std.ExtTreeMap.mem_iff_isSome_getElem?, hvalue]
  rfl

/-- The tables are the maps of the payloads, with the string ids looked up. -/
theorem verifyTablesMatchPayloads_iff {codec : JsonCodec Text} {tables : Tables Text}
    {parsed : ParsedPayloads} : verifyTablesMatchPayloads codec tables parsed ↔
      (tables.stringToU64 = parsed.stringToU64 ∧ tables.u64ToString = parsed.reverse ∧
        tables.u64ToSlot = parsed.u64ToSlot) ∧
      (∀ (id : String) (document : String), parsed.documents[id]? = some document →
        ∃ u64, parsed.u64ForString id = some u64 ∧ tables.documents[u64]? = some document) ∧
      ∀ (id : String) (value : Json.Value), parsed.metadata[id]? = some value →
        ∃ u64 text stored, parsed.u64ForString id = some u64 ∧ tables.metadata[u64]? = some text ∧
          parseJsonObject codec text = some stored ∧ stored.equals value := by
  simp only [verifyTablesMatchPayloads, Bool.and_eq_true, decide_eq_true_eq, List.all_eq_true,
    Prod.forall, Std.ExtTreeMap.mem_toList_iff_getElem?_eq_some, Option.bind_eq_some_iff,
    Option.any_eq_true, and_assoc]
  grind

/-! ## Generation rows -/

/-- A row of the generations table that agrees with the active generation. -/
def RowAgrees (active : GenerationCheckpoint) (id : Nat) (record : GenerationRecord) : Prop :=
  record.generationId = id ∧
    (record.state = generationStateActive ∧ id = active.id ∧ record.path = some active.path ∨
      record.state = generationStateRetired ∧ id ≠ active.id)

theorem RowAgrees.active_iff {active : GenerationCheckpoint} {id : Nat} {record : GenerationRecord}
    (h : RowAgrees active id record) : record.state = generationStateActive ↔ id = active.id := by
  rcases h.2 with ⟨hstate, hid, -⟩ | ⟨hstate, hid⟩
  · exact iff_of_true hstate hid
  · refine iff_of_false ?_ hid
    rw [hstate]
    decide

/-- Every row agrees, and the active row is there unless the store is empty. -/
theorem verifyGenerationRecords_iff {generations : Table Nat GenerationRecord}
    {active : GenerationCheckpoint} :
    verifyGenerationRecords generations active ↔
      (∀ id record, generations[id]? = some record → RowAgrees active id record) ∧
        (active.id ∈ generations ↔ active.emptyLazy = false) := by
  have hrow : ∀ (id : Nat) (record : GenerationRecord), RowAgrees active id record ↔
      (record.generationId = id && isValidGenerationRecordState record.state &&
        if record.state = generationStateActive then id = active.id && record.path = some active.path
        else id ≠ active.id) = true := by
    intro id record
    have hne : generationStateRetired ≠ generationStateActive := by decide
    unfold RowAgrees isValidGenerationRecordState
    split
    next hstate => simp [hstate, hne.symm]
    next hstate => simp [hstate]; tauto
  have hrows : (∀ id record, generations[id]? = some record → RowAgrees active id record) ↔
      ∀ row ∈ generations.toList, RowAgrees active row.1 row.2 :=
    ⟨fun h row hmem => h _ _ (Std.ExtTreeMap.mem_toList_iff_getElem?_eq_some.mp hmem),
      fun h id record hget => h (id, record)
        (Std.ExtTreeMap.mem_toList_iff_getElem?_eq_some.mpr hget)⟩
  unfold verifyGenerationRecords
  rw [Bool.and_eq_true, List.all_eq_true, hrows]
  simp only [← hrow, decide_eq_true_eq]
  refine and_congr_right fun hagree => ?_
  -- the active rows are those with the key of the active generation
  have hcount : (generations.toList.countP fun row => row.2.state = generationStateActive) =
      (generations.toList.map Prod.fst).count active.id := by
    rw [List.count, List.countP_map]
    refine List.countP_congr fun row hmem => ?_
    simpa using (hagree row hmem).active_iff
  have hmem : active.id ∈ generations ↔ active.id ∈ generations.toList.map Prod.fst := by
    rw [Std.ExtTreeMap.map_fst_toList_eq_keys, Std.ExtTreeMap.mem_keys]
  rw [hcount, hmem, (Table.nodup_keys_toList generations).count]
  cases active.emptyLazy <;> simp

end OrdinalDB.Store
