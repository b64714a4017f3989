import OrdinalDB.Store.Transactions

/-!
# Snapshots

What a snapshot finds, plans and leaves. `Prepared.opens_iff`: after its
transaction the store opens exactly when the snapshot does not reactivate a
retired generation, in which case the row is overwritten but the manifest counts
one row more.
-/

namespace OrdinalDB.Store

open Json

variable {Text : Type}

/-! ## Fresh keys -/

/-- The keys of the next commit are not in use. -/
structure FreshKeys (tables : Tables Text) (manifest : Manifest) : Prop where
  row : tables.manifest = some manifest
  audit : ∀ key ∈ tables.auditLog, key ≤ manifest.commitSequence
  gc : ∀ key ∈ tables.gcQueue, key ≤ manifest.tableCounts.gcQueue

def StoreFile.Fresh : StoreFile Text → Prop
  | .tables rows => ∃ manifest, FreshKeys rows manifest
  | _ => True

/-! ## The store before a call -/

theorem checkedAdd_eq_some {a b c : Nat} (h : checkedAdd a b = some c) : c = a + b :=
  (Option.some.inj (Option.ite_none_right_eq_some.mp h).2).symm

variable {codec : JsonCodec Text} {env : Env} {storeFile : StoreFile Text}

/-- Before a call there is no file, or its tables open. -/
theorem currentVerifiedStore_cases {disk : Disk} {allowedPrepared : Option String}
    {previousStore : Option (VerifiedAdapterStore Text)}
    (h : currentVerifiedStore codec disk storeFile allowedPrepared = some previousStore) :
    storeFile = .missing ∧ previousStore = none ∨
      ∃ verified parsed generation, previousStore = some verified ∧
        storeFile = .tables storeFile.rows ∧
        Opens codec disk storeFile.rows none allowedPrepared verified parsed generation := by
  rcases currentVerifiedStore_eq_some h with ⟨hfile, hstore⟩ | ⟨tables, verified, rfl, rfl, hopen⟩
  · exact .inl ⟨hfile, hstore⟩
  · obtain ⟨parsed, generation, hopens⟩ := openTables_eq_some.mp hopen
    exact .inr ⟨verified, parsed, generation, rfl, rfl, hopens⟩

/-- A verified manifest counts the rows that are there; so does a missing one. -/
theorem previousCount_eq {disk : Disk} {allowedPrepared : Option String}
    {previousStore : Option (VerifiedAdapterStore Text)}
    (h : currentVerifiedStore codec disk storeFile allowedPrepared = some previousStore)
    {count : TableCounts → Nat} (hempty : count (Tables.empty : Tables Text).counts = 0) :
    previousCount (previousStore.map (·.manifest)) count = count storeFile.rows.counts := by
  rcases currentVerifiedStore_cases h with ⟨rfl, rfl⟩ | ⟨verified, _, _, rfl, -, hopens⟩
  · exact hempty.symm
  · exact congrArg count hopens.counts

theorem checkpoint_lazy {disk : Disk} {parsed : ParsedPayloads} {allowedPrepared : Option String}
    {generation : GenerationCheckpoint}
    (h : activeGenerationCheckpoint disk parsed allowedPrepared = some generation)
    (hlazy : parsed.emptyLazy = true) :
    noVectorArtifacts disk parsed.indexPath allowedPrepared ∧ generation.id = 0 ∧
      generation.path = "" ∧ generation.emptyLazy = true ∧ generation.vectorCount = 0 := by
  unfold activeGenerationCheckpoint at h
  rw [if_pos hlazy] at h
  obtain ⟨_, hguard, hgeneration⟩ := Option.bind_eq_some_iff.mp h
  obtain rfl := Option.some.inj hgeneration
  exact ⟨by simpa using hguard, rfl, rfl, rfl, rfl⟩

theorem checkpoint_bundle {disk : Disk} {parsed : ParsedPayloads}
    {allowedPrepared : Option String} {generation : GenerationCheckpoint}
    (h : activeGenerationCheckpoint disk parsed allowedPrepared = some generation)
    (hlazy : parsed.emptyLazy = false) :
    ∃ bundle, disk.bundle parsed.indexPath = some bundle ∧
      generationIdFromIndexPath parsed.indexPath = some generation.id ∧
      generation.path = parsed.indexPath ∧ generation.emptyLazy = false ∧
      generation.manifestSha256 = some bundle.manifestSha256 ∧
      generation.manifestSizeBytes = some bundle.manifestSizeBytes := by
  unfold activeGenerationCheckpoint at h
  rw [hlazy, if_neg Bool.false_ne_true] at h
  obtain ⟨bundle, hbundle, h⟩ := Option.bind_eq_some_iff.mp h
  obtain ⟨id, hid, h⟩ := Option.bind_eq_some_iff.mp h
  obtain rfl := Option.some.inj h
  exact ⟨bundle, hbundle, hid, rfl, rfl, rfl, rfl⟩

/-- Generations are numbered from 1. -/
theorem generationId_pos {path : String} {id : Nat}
    (h : generationIdFromIndexPath path = some id) : 0 < id := by
  unfold generationIdFromIndexPath at h
  split at h
  next =>
    obtain rfl := Option.some.inj h
    exact Nat.one_pos
  next name _ =>
    unfold parseGenerationDir at h
    split at h
    next =>
      split at h
      next => exact of_decide_eq_true (Option.filter_eq_some_iff.mp h).2
      next => cases h
    next => cases h
  next => cases h

/-- Where an empty store is accepted there are no bundles. -/
theorem bundle_eq_none_of_noVectorArtifacts {disk : Disk} {indexPath : String}
    (h : noVectorArtifacts disk indexPath none) (path : String) : disk.bundle path = none := by
  obtain ⟨hindex, hvectors⟩ := (Bool.and_eq_true _ _).mp h
  cases hlocation : locate path with
  | none => simp [Disk.bundle, hlocation]
  | some location =>
    cases location with
    | index =>
      have hmissing : disk.exists? .index = false := by
        have := List.all_eq_true.mp hindex indexDir (by simp)
        simpa [show locate indexDir = some .index by decide] using this
      cases hnode : disk.index with
      | none => simp [Disk.bundle, hlocation, Disk.node, hnode]
      | some node => cases node <;> simp_all [Disk.bundle, Disk.exists?, Disk.node, Node.exists?,
          Node.bundle]
    | vectors name =>
      have hname : (parseGenerationDir name).isSome := by
        unfold locate at hlocation
        grind
      cases hentries : disk.vectors with
      | none => simp [Disk.bundle, hlocation, Disk.node, hentries]
      | some entries =>
        cases hnode : entries[name]? with
        | none => simp [Disk.bundle, hlocation, Disk.node, hentries, hnode]
        | some node =>
          rw [hentries] at hvectors
          have hmem := Std.ExtTreeMap.mem_toList_iff_getElem?_eq_some.mpr hnode
          have := List.all_eq_true.mp hvectors _ hmem
          simp_all

/-! ## Snapshots -/

/-- What the checks before a snapshot have settled. -/
structure Prepared (codec : JsonCodec Text) (env : Env) (storeFile : StoreFile Text)
    (expected : Option StoreRevision) (payloads : LegacyPayloads Text) (origin : StoreOrigin)
    (plan : SnapshotPlan) (previousStore : Option (VerifiedAdapterStore Text))
    (tableCounts : TableCounts) : Prop where
  parses : ParsedPayloads.parse codec payloads = some plan.parsed
  checkpoint : activeGenerationCheckpoint env.disk plan.parsed none = some plan.generation
  validated : plan.parsed.validateAgainstGeneration plan.generation
  current : currentVerifiedStore codec env.disk storeFile
    (if plan.parsed.emptyLazy then none else some plan.parsed.indexPath) = some previousStore
  revision : verifyExpectedRevision previousStore expected
  counts : snapshotTableCounts plan.parsed plan.generation (previousStore.map (·.manifest)) =
    some tableCounts
  manifest : adapterStoreManifest env plan.parsed plan.generation tableCounts
    (previousStore.map (·.manifest)) origin = some plan.manifest

section Snapshot

variable {expected : Option StoreRevision} {payloads : LegacyPayloads Text} {origin : StoreOrigin}
  {plan : SnapshotPlan} {previousStore : Option (VerifiedAdapterStore Text)}
  {tableCounts : TableCounts}

theorem prepareSnapshot_eq_some :
    prepareSnapshot codec env storeFile expected payloads origin = some plan ↔
      ∃ previousStore tableCounts, Prepared codec env storeFile expected payloads origin plan
        previousStore tableCounts := by
  constructor
  · intro h
    simp only [prepareSnapshot, Option.bind_eq_bind, Option.bind_eq_some_iff,
      Option.guard_eq_some', Option.pure_def, Option.some.injEq, exists_const] at h
    obtain ⟨parsed, hparsed, generation, hgeneration, hvalid, previous, hcurrent, hrevision,
      counts, hcounts, manifest, hmanifest, rfl⟩ := h
    exact ⟨previous, counts, hparsed, hgeneration, hvalid, hcurrent, hrevision, hcounts, hmanifest⟩
  · rintro ⟨previous, counts, h⟩
    simp [prepareSnapshot, h.parses, h.checkpoint, h.validated, h.current, h.revision, h.counts,
      h.manifest]

/-- The payloads activate a generation that has been retired. -/
def Reactivates (codec : JsonCodec Text) (storeFile : StoreFile Text)
    (payloads : LegacyPayloads Text) : Prop :=
  ∃ parsed id record, ParsedPayloads.parse codec payloads = some parsed ∧
    parsed.emptyLazy = false ∧ generationIdFromIndexPath parsed.indexPath = some id ∧
    storeFile.rows.generations[id]? = some record ∧ record.state = generationStateRetired

/-- An empty snapshot follows only an empty store. -/
theorem Prepared.previous_lazy {verified : VerifiedAdapterStore Text} {parsed : ParsedPayloads}
    {generation : GenerationCheckpoint} {allowedPrepared : Option String}
    (h : Prepared codec env storeFile expected payloads origin plan previousStore tableCounts)
    (hlazy : plan.parsed.emptyLazy = true)
    (hopens : Opens codec env.disk storeFile.rows none allowedPrepared verified parsed
      generation) :
    generation.id = 0 ∧ generation.path = "" ∧ generation.emptyLazy = true := by
  have hnone := (checkpoint_lazy h.checkpoint hlazy).1
  cases hprevious : parsed.emptyLazy with
  | true =>
    obtain ⟨-, hid, hpath, hempty, -⟩ := checkpoint_lazy hopens.checkpoint hprevious
    exact ⟨hid, hpath, hempty⟩
  | false =>
    obtain ⟨bundle, hbundle, -⟩ := checkpoint_bundle hopens.checkpoint hprevious
    rw [bundle_eq_none_of_noVectorArtifacts hnone] at hbundle
    cases hbundle

theorem RowAgrees.valid {active : GenerationCheckpoint} {id : Nat} {record : GenerationRecord}
    (h : RowAgrees active id record) : isValidGenerationRecordState record.state := by
  rcases h.2 with ⟨hstate, -⟩ | ⟨hstate, -⟩ <;> simp [isValidGenerationRecordState, hstate]

/-- An empty snapshot leaves the generation rows; they agree with it, and are counted. -/
theorem Prepared.generations_lazy
    (h : Prepared codec env storeFile expected payloads origin plan previousStore tableCounts)
    (hlazy : plan.parsed.emptyLazy = true) :
    verifyGenerationRecords storeFile.rows.generations plan.generation ∧
      tableCounts.generations = storeFile.rows.generations.size := by
  obtain ⟨-, hid, hpath, hempty, -⟩ := checkpoint_lazy h.checkpoint hlazy
  constructor
  · rcases currentVerifiedStore_cases h.current with
      ⟨rfl, -⟩ | ⟨verified, parsed, generation, -, -, hopens⟩
    · rw [verifyGenerationRecords_iff, hempty]
      simp [StoreFile.rows, Tables.empty]
    · obtain ⟨hid', hpath', hempty'⟩ := h.previous_lazy hlazy hopens
      have hrows := verifyGenerationRecords_iff.mp hopens.generations
      simp only [verifyGenerationRecords_iff, RowAgrees, hid, hpath, hempty]
      simpa only [RowAgrees, hid', hpath', hempty'] using hrows
  · have hcounts := h.counts
    simp only [snapshotTableCounts, snapshotGenerationCount, hlazy, Bool.true_or, if_true,
      Option.bind_eq_bind, Option.bind_eq_some_iff, Option.pure_def, Option.some.injEq] at hcounts
    obtain ⟨_, rfl, _, -, rfl⟩ := hcounts
    exact previousCount_eq h.current rfl

/-- The rows before a snapshot are valid and keyed by their ids. -/
theorem previous_rows {disk : Disk} {allowedPrepared : Option String}
    (h : currentVerifiedStore codec disk storeFile allowedPrepared = some previousStore)
    {id : Nat} {record : GenerationRecord} (hrecord : storeFile.rows.generations[id]? = some record) :
    isValidGenerationRecordState record.state ∧ record.generationId = id := by
  rcases currentVerifiedStore_cases h with ⟨rfl, -⟩ | ⟨_, _, _, -, -, hopens⟩
  · simp [StoreFile.rows, Tables.empty] at hrecord
  · have hrow := (verifyGenerationRecords_iff.mp hopens.generations).1 id record hrecord
    exact ⟨hrow.valid, hrow.1⟩

/-- A generation is reactivated when it has a row and is not the active one. -/
theorem Prepared.reactivates_iff
    (h : Prepared codec env storeFile expected payloads origin plan previousStore tableCounts)
    (hlazy : plan.parsed.emptyLazy = false) :
    let recorded := previousStore.map (·.manifest.activeGenerationId) = some plan.generation.id
    (Reactivates codec storeFile payloads ↔
      plan.generation.id ∈ storeFile.rows.generations ∧ ¬recorded) ∧
    (recorded → plan.generation.id ∈ storeFile.rows.generations) := by
  obtain ⟨-, -, hid, -⟩ := checkpoint_bundle h.checkpoint hlazy
  have hretired : Reactivates codec storeFile payloads ↔ ∃ record,
      storeFile.rows.generations[plan.generation.id]? = some record ∧
        record.state = generationStateRetired := by
    constructor
    · rintro ⟨parsed, id, record, hparsed, -, hid', hrecord, hstate⟩
      obtain rfl := Option.some.inj (h.parses.symm.trans hparsed)
      obtain rfl := Option.some.inj (hid.symm.trans hid')
      exact ⟨record, hrecord, hstate⟩
    · rintro ⟨record, hrecord, hstate⟩
      exact ⟨_, _, record, h.parses, hlazy, hid, hrecord, hstate⟩
  intro recorded
  rcases currentVerifiedStore_cases h.current with
    ⟨rfl, rfl⟩ | ⟨verified, parsed, generation, rfl, -, hopens⟩
  · simp [hretired, recorded, StoreFile.rows, Tables.empty]
  · obtain ⟨hrows, hactive⟩ := verifyGenerationRecords_iff.mp hopens.generations
    have hmanifest : verified.manifest.activeGenerationId = generation.id := by
      have := hopens.manifestGeneration
      simp only [verifyManifestGeneration, Bool.and_eq_true, decide_eq_true_eq] at this
      exact this.1.1.1
    have hrecorded : recorded ↔ generation.id = plan.generation.id := by
      simp [recorded, hmanifest]
    constructor
    · rw [hretired, hrecorded, Std.ExtTreeMap.mem_iff_isSome_getElem?]
      constructor
      · rintro ⟨record, hrecord, hstate⟩
        refine ⟨Option.isSome_of_eq_some hrecord, fun hsame => ?_⟩
        have := (hrows _ _ hrecord).active_iff.mpr hsame.symm
        rw [hstate] at this
        exact absurd this (by decide)
      · rintro ⟨hmem, hother⟩
        obtain ⟨record, hrecord⟩ := Option.isSome_iff_exists.mp hmem
        rcases (hrows _ _ hrecord).2 with ⟨-, hsame, -⟩ | ⟨hstate, -⟩
        · exact absurd hsame.symm hother
        · exact ⟨record, hrecord, hstate⟩
    · intro hsame
      rw [hrecorded] at hsame
      rw [← hsame, hactive]
      cases hprevious : parsed.emptyLazy with
      | false =>
        obtain ⟨_, -, -, -, hempty, -⟩ := checkpoint_bundle hopens.checkpoint hprevious
        exact hempty
      | true =>
        -- the generation of an empty store is 0, which no path names
        obtain ⟨-, hzero, -⟩ := checkpoint_lazy hopens.checkpoint hprevious
        have := generationId_pos hid
        omega

/-- A snapshot of a bundle rewrites the generation rows; they agree with it, and are counted
unless it reactivates a generation. -/
theorem Prepared.generations_active
    (h : Prepared codec env storeFile expected payloads origin plan previousStore tableCounts)
    (hlazy : plan.parsed.emptyLazy = false) :
    ∃ next, activateGeneration storeFile.rows.generations plan.generation
        plan.manifest.commitSequence = some next ∧
      verifyGenerationRecords next plan.generation ∧
      (tableCounts.generations = next.size ↔ ¬Reactivates codec storeFile payloads) := by
  obtain ⟨bundle, -, hid, hpath, hempty, -⟩ := checkpoint_bundle h.checkpoint hlazy
  obtain ⟨next, hnext, hactive, hothers, hsize⟩ := activateGeneration_eq_some
    plan.generation plan.manifest.commitSequence fun id record hrecord => (previous_rows h.current hrecord).1
  refine ⟨next, hnext, verifyGenerationRecords_iff.mpr ⟨fun id record hrecord => ?_, ?_⟩, ?_⟩
  · by_cases hsame : id = plan.generation.id
    · subst hsame
      obtain rfl := Option.some.inj (hactive.symm.trans hrecord)
      exact ⟨rfl, .inl ⟨rfl, rfl, rfl⟩⟩
    · rw [hothers id hsame] at hrecord
      obtain ⟨before, hbefore, rfl⟩ := Option.map_eq_some_iff.mp hrecord
      refine ⟨?_, .inr ⟨before.retired_state _, hsame⟩⟩
      rw [before.retired_generationId]
      exact (previous_rows h.current hbefore).2
  · refine iff_of_true ?_ hempty
    exact Std.ExtTreeMap.mem_iff_isSome_getElem?.mpr (Option.isSome_of_eq_some hactive)
  · have hcounts := h.counts
    simp only [snapshotTableCounts, Option.bind_eq_bind, Option.bind_eq_some_iff, Option.pure_def,
      Option.some.injEq] at hcounts
    obtain ⟨count, hcount, _, -, rfl⟩ := hcounts
    obtain ⟨hreactivates, hrecorded⟩ := h.reactivates_iff hlazy
    have hprevious : previousCount (previousStore.map (·.manifest)) (·.generations) =
        storeFile.rows.generations.size := previousCount_eq h.current rfl
    simp only [snapshotGenerationCount, hlazy, Bool.false_or, decide_eq_true_eq, Option.map_map,
      Function.comp_def, hprevious] at hcount
    rw [hreactivates, hsize]
    split at hcount
    next hsame =>
      obtain rfl := Option.some.inj hcount
      rw [if_pos (hrecorded hsame)]
      simp [hsame]
    next hother =>
      obtain rfl := checkedAdd_eq_some hcount
      split <;> simp_all

/-- The generation rows that a snapshot leaves. -/
theorem Prepared.generations
    (h : Prepared codec env storeFile expected payloads origin plan previousStore tableCounts) :
    ∃ next, snapshotGenerations storeFile.rows.generations plan = some next ∧
      verifyGenerationRecords next plan.generation ∧
      (tableCounts.generations = next.size ↔ ¬Reactivates codec storeFile payloads) := by
  cases hlazy : plan.parsed.emptyLazy with
  | false => simpa [snapshotGenerations, hlazy] using h.generations_active hlazy
  | true =>
    obtain ⟨hagree, hcount⟩ := h.generations_lazy hlazy
    refine ⟨_, by simp [snapshotGenerations, hlazy], hagree, iff_of_true hcount ?_⟩
    rintro ⟨parsed, id, record, hparsed, hfalse, -⟩
    obtain rfl := Option.some.inj (h.parses.symm.trans hparsed)
    rw [hlazy] at hfalse
    cases hfalse

/-- The manifest of a snapshot passes its own checks. -/
theorem Prepared.manifest_verified
    (h : Prepared codec env storeFile expected payloads origin plan previousStore tableCounts) :
    verifyManifestShape plan.manifest none ∧ verifyManifestPayloads plan.manifest plan.parsed ∧
      verifyManifestGeneration plan.manifest plan.generation ∧
      plan.manifest.tableCounts = tableCounts := by
  have hmanifest := h.manifest
  simp only [adapterStoreManifest, Option.bind_eq_bind, Option.bind_eq_some_iff, Option.pure_def,
    Option.some.injEq] at hmanifest
  obtain ⟨commitSequence, -, hmanifest⟩ := hmanifest
  refine ⟨?_, ?_, ?_, ?_⟩
  · rcases currentVerifiedStore_cases h.current with
      ⟨-, rfl⟩ | ⟨verified, _, _, rfl, -, hopens⟩
    · have horigin : validateStoreOrigin origin.asStr := by cases origin <;> decide
      simp [← hmanifest, verifyManifestShape, validateStoreUuid_randomStoreUuid, horigin]
    · have hshape := hopens.shape
      simp only [verifyManifestShape, Bool.and_eq_true, decide_eq_true_eq] at hshape
      simp [← hmanifest, verifyManifestShape, hshape]
  · simp [← hmanifest, verifyManifestPayloads]
  · cases hlazy : plan.parsed.emptyLazy with
    | true =>
      obtain ⟨-, -, -, hempty, -⟩ := checkpoint_lazy h.checkpoint hlazy
      simp [← hmanifest, verifyManifestGeneration, hempty, hlazy]
    | false =>
      obtain ⟨_, -, -, -, hempty, hdigest, hsize⟩ := checkpoint_bundle h.checkpoint hlazy
      simp [← hmanifest, verifyManifestGeneration, hempty, hdigest, hsize]
  · rw [← hmanifest]

end Snapshot

/-! ## The tables of a snapshot -/

/-- What the transaction of a snapshot leaves. -/
structure SnapshotWritten (codec : JsonCodec Text) (env : Env) (before : Tables Text)
    (payloads : LegacyPayloads Text) (plan : SnapshotPlan) (after : Tables Text) : Prop where
  manifest : after.manifest = some plan.manifest
  payloads : loadPayloads after.jsonPayloads = some payloads
  rows : verifyTablesMatchPayloads codec after plan.parsed
  counts : after.counts = {
    metaRows := 1
    jsonPayloads := 4
    stringToU64 := plan.parsed.stringToU64.size
    u64ToString := plan.parsed.stringToU64.size
    u64ToSlot := plan.parsed.u64ToSlot.size
    documents := plan.parsed.documents.size
    metadata := plan.parsed.metadata.size
    generations := after.generations.size
    pendingBatches := before.pendingBatches.size
    tombstones := before.tombstones.size
    gcQueue := before.gcQueue.size
    auditLog := after.auditLog.size }
  generations : snapshotGenerations before.generations plan = some after.generations
  gcQueue : after.gcQueue = before.gcQueue
  auditLog : after.auditLog = before.auditLog.insert plan.manifest.commitSequence
    (some (.legacySnapshotWritten plan.manifest.commitSequence plan.generation.id
      plan.generation.path (env.now 1)))

/-- Metadata values of accepted payloads are read back from their rows. -/
theorem parseJsonObject_metadata {payloads : LegacyPayloads Text} {parsed : ParsedPayloads}
    (h : ParsedPayloads.parse codec payloads = some parsed) {id : String} {value : Value}
    (hvalue : parsed.metadata[id]? = some value) :
    parseJsonObject codec (codec.write value) = some value := by
  obtain ⟨hcanonical, hobject, hdepth⟩ := ParsedPayloads.parse_metadata h hvalue
  obtain ⟨members, hmembers⟩ := Option.isSome_iff_exists.mp hobject
  obtain ⟨rfl, -⟩ := hcanonical.eq_ofTable hmembers
  rw [parseJsonObject_write codec hcanonical, if_pos]
  exact hdepth.trans (by decide)

theorem writeSnapshotTransaction_eq_some {before : Tables Text} {payloads : LegacyPayloads Text}
    {plan : SnapshotPlan} {next : Table Nat GenerationRecord}
    (hparse : ParsedPayloads.parse codec payloads = some plan.parsed)
    (hnext : snapshotGenerations before.generations plan = some next) :
    ∃ after, writeSnapshotTransaction codec env before payloads plan = some after ∧
      SnapshotWritten codec env before payloads plan after := by
  have hvalid := ParsedPayloads.parse_validMaps hparse
  obtain ⟨documents, hdocuments, hdocumentIds, hdocumentCount, hdocumentRows⟩ :=
    plan.parsed.u64Rows_eq_some hvalid.documents
  obtain ⟨metadata, hmetadata, hmetadataIds, hmetadataCount, hmetadataRows⟩ :=
    plan.parsed.u64Rows_eq_some hvalid.metadata
  have htexts : (metadata.map fun row => (row.1, codec.write row.2)).map Prod.fst =
      plan.parsed.u64Ids := by
    rw [List.map_map, ← hmetadataIds]
    rfl
  have hids : ∀ {V : Type} {rows : List (Nat × V)}, rows.map Prod.fst = plan.parsed.u64Ids →
      (rows.map Prod.fst).Nodup := fun h => h ▸ hvalid.distinct
  have htransaction : ∃ after,
      writeSnapshotTransaction codec env before payloads plan = some after ∧
      after.metaRows = (∅ : Table String _).insertMany [("manifest", some plan.manifest)] ∧
      after.jsonPayloads = (∅ : Table String _).insertMany
        [("adapter", payloads.adapterJson), ("id_map", payloads.idMapJson),
          ("documents", payloads.documentsJson), ("metadata", payloads.metadataJson)] ∧
      after.stringToU64 = plan.parsed.stringToU64 ∧
      after.u64ToString = plan.parsed.reverse ∧
      after.u64ToSlot = plan.parsed.u64ToSlot ∧
      after.documents = (∅ : Table Nat _).insertMany documents ∧
      after.metadata = (∅ : Table Nat _).insertMany
        (metadata.map fun row => (row.1, codec.write row.2)) ∧
      after.generations = next ∧ after.pendingBatches = before.pendingBatches ∧
      after.tombstones = before.tombstones ∧ after.gcQueue = before.gcQueue ∧
      after.auditLog = before.auditLog.insert plan.manifest.commitSequence
        (some (.legacySnapshotWritten plan.manifest.commitSequence plan.generation.id
          plan.generation.path (env.now 1))) := by
    simp only [writeSnapshotTransaction, hdocuments, hmetadata, hnext, Option.bind_eq_bind,
      Option.bind_some, Option.pure_def]
    refine ⟨_, rfl, ?_⟩
    refine ⟨retainAndInsert_none, retainAndInsert_none, ?_, ?_, ?_, ?_, ?_, rfl, rfl, rfl, rfl, rfl⟩
    · refine (retainAndInsert_eq fun key => ?_).trans (Table.ofList_toList _)
      rw [Std.ExtTreeMap.map_fst_toList_eq_keys, Std.ExtTreeMap.mem_keys, decide_eq_true_eq]
    · refine retainAndInsert_eq fun key => ?_
      rw [plan.parsed.swap_keys, decide_eq_true_eq]
    · refine (retainAndInsert_eq fun key => ?_).trans (Table.ofList_toList _)
      rw [Std.ExtTreeMap.map_fst_toList_eq_keys, Std.ExtTreeMap.mem_keys, decide_eq_true_eq]
    · exact retainAndInsert_eq fun key => decide_eq_true_iff
    · refine retainAndInsert_eq fun key => ?_
      rw [htexts, ← hmetadataIds, decide_eq_true_eq]
  obtain ⟨after, hafter, hmeta, hjson, hstrings, hreverse, hslots, hdocs, htable, hgenerations,
    hpending, htombstones, hgc, haudit⟩ := htransaction
  refine ⟨after, hafter, ?_, ?_, ?_, ?_, by rw [hgenerations]; exact hnext, hgc, haudit⟩
  · rw [Tables.manifest, hmeta, Table.insertMany_of_nodup (by simp) List.mem_cons_self]
    rfl
  -- the four documents are stored under names that differ
  · have hlookup : ∀ row ∈ [("adapter", payloads.adapterJson), ("id_map", payloads.idMapJson),
        ("documents", payloads.documentsJson), ("metadata", payloads.metadataJson)],
        after.jsonPayloads[row.1]? = some row.2 := by
      intro row hrow
      rw [hjson]
      exact Table.insertMany_of_nodup (by simp) hrow
    simp only [List.forall_mem_cons] at hlookup
    simp [loadPayloads, hlookup]
  · refine verifyTablesMatchPayloads_iff.mpr ⟨⟨hstrings, hreverse, hslots⟩, ?_, ?_⟩
    · intro id document hdocument
      obtain ⟨u64, hu64⟩ := plan.parsed.u64ForString_of_keys hvalid.documents hdocument
      refine ⟨u64, hu64, ?_⟩
      rw [hdocs]
      exact Table.insertMany_of_nodup (hids hdocumentIds)
        ((hdocumentRows u64 document).mpr ⟨id, hu64, hdocument⟩)
    · intro id value hvalue
      obtain ⟨u64, hu64⟩ := plan.parsed.u64ForString_of_keys hvalid.metadata hvalue
      refine ⟨u64, codec.write value, value, hu64, ?_, parseJsonObject_metadata hparse hvalue,
        value.equals_refl⟩
      rw [htable]
      exact Table.insertMany_of_nodup (hids htexts)
        (List.mem_map.mpr ⟨(u64, value), (hmetadataRows u64 value).mpr ⟨id, hu64, hvalue⟩, rfl⟩)
  -- the counts of the plan are the sizes of the tables that were written
  · have hreverseSize : plan.parsed.reverse.size = plan.parsed.stringToU64.size := by
      rw [ParsedPayloads.reverse, Table.size_ofList (hids plan.parsed.swap_keys)]
      simp [Std.ExtTreeMap.length_toList]
    simp only [Tables.counts, hmeta, hjson, hstrings, hreverse, hslots, hdocs, htable, hpending,
      htombstones, hgc, hreverseSize, Table.size_ofList (hids hdocumentIds),
      Table.size_ofList (hids htexts), List.length_map, hdocumentCount, hmetadataCount]
    rfl

section SnapshotOpens

variable {expected : Option StoreRevision} {payloads : LegacyPayloads Text} {origin : StoreOrigin}
  {plan : SnapshotPlan} {previousStore : Option (VerifiedAdapterStore Text)}
  {tableCounts : TableCounts} {after : Tables Text}

/-- The sequence number of a snapshot follows the previous one. -/
theorem Prepared.commitSequence
    (h : Prepared codec env storeFile expected payloads origin plan previousStore tableCounts) :
    snapshotCommitSequence (previousStore.map (·.manifest)) = some plan.manifest.commitSequence := by
  have hmanifest := h.manifest
  simp only [adapterStoreManifest, Option.bind_eq_bind, Option.bind_eq_some_iff, Option.pure_def,
    Option.some.injEq] at hmanifest
  obtain ⟨commitSequence, hsequence, hmanifest⟩ := hmanifest
  rw [hsequence, ← hmanifest]

/-- It is not in the audit log yet. -/
theorem Prepared.audit_fresh
    (h : Prepared codec env storeFile expected payloads origin plan previousStore tableCounts)
    (hfresh : storeFile.Fresh) :
    ∀ key ∈ storeFile.rows.auditLog, key < plan.manifest.commitSequence := by
  have hsequence := h.commitSequence
  rcases currentVerifiedStore_cases h.current with ⟨rfl, rfl⟩ | ⟨verified, _, _, rfl, hfile, hopens⟩
  · intro key hkey
    simp [StoreFile.rows, Tables.empty] at hkey
  · rw [hfile] at hfresh
    obtain ⟨previous, hprevious⟩ := hfresh
    obtain rfl := Option.some.inj (hprevious.row.symm.trans hopens.manifest)
    rw [checkedAdd_eq_some hsequence]
    exact fun key hkey => Nat.lt_succ_of_le (hprevious.audit key hkey)

/-- The manifest of a snapshot counts its tables unless it reactivates a generation. -/
theorem Prepared.counts_iff
    (h : Prepared codec env storeFile expected payloads origin plan previousStore tableCounts)
    (hfresh : storeFile.Fresh)
    (hafter : SnapshotWritten codec env storeFile.rows payloads plan after) :
    plan.manifest.tableCounts = after.counts ↔ ¬Reactivates codec storeFile payloads := by
  obtain ⟨next, hnext, -, hgenerations⟩ := h.generations
  obtain rfl := Option.some.inj (hnext.symm.trans hafter.generations)
  have haudit : after.auditLog.size = storeFile.rows.auditLog.size + 1 := by
    rw [hafter.auditLog]
    exact Table.size_insert_of_not_mem fun hmem =>
      Nat.lt_irrefl _ (h.audit_fresh hfresh _ hmem)
  have hcounts := h.counts
  simp only [snapshotTableCounts, Option.bind_eq_bind, Option.bind_eq_some_iff, Option.pure_def,
    Option.some.injEq] at hcounts
  obtain ⟨count, -, auditCount, hauditCount, rfl⟩ := hcounts
  have hauditCount : auditCount = after.auditLog.size := by
    rw [checkedAdd_eq_some hauditCount, haudit]
    exact congrArg (· + 1) (previousCount_eq h.current rfl)
  rw [h.manifest_verified.2.2.2, hafter.counts, ← hgenerations]
  simp only [TableCounts.mk.injEq, hauditCount, true_and, and_true]
  refine ⟨fun hsame => hsame.1, fun hsame => ⟨hsame, ?_, ?_, ?_⟩⟩
  · exact previousCount_eq h.current rfl
  · exact previousCount_eq h.current rfl
  · exact previousCount_eq h.current rfl

/-- A written snapshot opens when the counts are right. -/
theorem Prepared.opens_of_counts
    (h : Prepared codec env storeFile expected payloads origin plan previousStore tableCounts)
    (hafter : SnapshotWritten codec env storeFile.rows payloads plan after)
    (hcounts : plan.manifest.tableCounts = after.counts) :
    openTables codec env.disk after none none = some ⟨plan.manifest, payloads⟩ := by
  obtain ⟨next, hnext, hrecords, -⟩ := h.generations
  obtain rfl := Option.some.inj (hnext.symm.trans hafter.generations)
  obtain ⟨hshape, hfields, hgeneration, -⟩ := h.manifest_verified
  exact openTables_eq_some.mpr ⟨plan.parsed, plan.generation, hafter.manifest, hshape,
    hafter.payloads, h.parses, hfields, hcounts, h.checkpoint, hafter.rows, hrecords,
    h.validated, hgeneration⟩

/-- A written snapshot opens exactly when it does not reactivate a generation. -/
theorem Prepared.opens_iff
    (h : Prepared codec env storeFile expected payloads origin plan previousStore tableCounts)
    (hfresh : storeFile.Fresh)
    (hafter : SnapshotWritten codec env storeFile.rows payloads plan after) :
    (¬Reactivates codec storeFile payloads →
      openTables codec env.disk after none none = some ⟨plan.manifest, payloads⟩) ∧
    (Reactivates codec storeFile payloads →
      ∀ disk allowedPrepared, openTables codec disk after none allowedPrepared = none) := by
  have hcounts := h.counts_iff hfresh hafter
  exact ⟨fun hnew => h.opens_of_counts hafter (hcounts.mpr hnew), fun hold =>
    openTables_eq_none hafter.manifest fun hsame => hcounts.mp hsame hold⟩

end SnapshotOpens

end OrdinalDB.Store
