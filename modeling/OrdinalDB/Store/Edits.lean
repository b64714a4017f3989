import OrdinalDB.Store.Snapshots

/-!
# Mutations in place

Metadata patches and gc records keep the payloads of the identifiers and the
generations, and edit the counters of the manifest. `Opens.edit` is what both
share. A gc record always leaves a store that opens (`gcTransaction_opens`), a
patch unless the reader refuses the metadata payload that it prints
(`patchTransaction_opens`).
-/

namespace OrdinalDB.Store

open Json

variable {Text : Type} {codec : JsonCodec Text} {env : Env} {storeFile : StoreFile Text}

/-! ## Edits -/

/-- A manifest with new counters. -/
def Manifest.edit (manifest : Manifest) (commitSequence : Nat) (updatedAtUnixMs : Option Nat)
    (tableCounts : TableCounts) : Manifest :=
  { manifest with commitSequence, updatedAtUnixMs, tableCounts }

/-- Tables that differ in metadata, counters and history open when the counters are right. -/
theorem Opens.edit {disk : Disk} {before after : Tables Text} {expectedAdapter : Option String}
    {allowedPrepared : Option String} {store : VerifiedAdapterStore Text} {parsed : ParsedPayloads}
    {generation : GenerationCheckpoint}
    (h : Opens codec disk before expectedAdapter allowedPrepared store parsed generation)
    {commitSequence : Nat} {updatedAtUnixMs : Option Nat} {payloads : LegacyPayloads Text}
    {metadata : Table String Value}
    (hmanifest : after.manifest =
      some (store.manifest.edit commitSequence updatedAtUnixMs after.counts))
    (hpayloads : loadPayloads after.jsonPayloads = some payloads)
    (hparses : ParsedPayloads.parse codec payloads = some { parsed with metadata })
    (hrows : verifyTablesMatchPayloads codec after { parsed with metadata })
    (hgenerations : after.generations = before.generations)
    (hlazy : parsed.emptyLazy = true → metadata = parsed.metadata) :
    Opens codec disk after expectedAdapter allowedPrepared
      ⟨store.manifest.edit commitSequence updatedAtUnixMs after.counts, payloads⟩
      { parsed with metadata } generation where
  manifest := hmanifest
  shape := h.shape
  payloads := hpayloads
  parses := hparses
  manifestPayloads := h.manifestPayloads
  counts := rfl
  checkpoint := h.checkpoint
  rows := hrows
  generations := hgenerations ▸ h.generations
  validated := by
    have hvalidated := h.validated
    rcases Bool.eq_false_or_eq_true parsed.emptyLazy with hempty | hempty
    · obtain rfl := hlazy hempty
      exact hvalidated
    · simp only [ParsedPayloads.validateAgainstGeneration, hempty, Bool.false_eq_true,
        if_false] at hvalidated ⊢
      exact hvalidated
  manifestGeneration := h.manifestGeneration

/-- Before an edit the tables are open. -/
theorem currentStore_eq_some {disk : Disk} {store : VerifiedAdapterStore Text}
    (h : (currentVerifiedStore codec disk storeFile none).join = some store) :
    storeFile = .tables storeFile.rows ∧ ∃ parsed generation,
      Opens codec disk storeFile.rows none none store parsed generation := by
  have hverified : currentVerifiedStore codec disk storeFile none = some (some store) :=
    Option.join_eq_some_iff.mp h
  rcases currentVerifiedStore_cases hverified with
    ⟨-, hnone⟩ | ⟨_, parsed, generation, hsome, hfile, hopens⟩
  · cases hnone
  · obtain rfl := Option.some.inj hsome
    exact ⟨hfile, parsed, generation, hopens⟩

theorem mem_metaRows_of_manifest {tables : Tables Text} {manifest : Manifest}
    (h : tables.manifest = some manifest) : "manifest" ∈ tables.metaRows := by
  refine Std.ExtTreeMap.mem_iff_isSome_getElem?.mpr ?_
  cases hrow : tables.metaRows["manifest"]? with
  | none =>
    rw [Tables.manifest, hrow] at h
    cases h
  | some row => rfl

theorem mem_jsonPayloads_of_load {jsonPayloads : Table String Text}
    {payloads : LegacyPayloads Text} (h : loadPayloads jsonPayloads = some payloads) :
    jsonPayloads["adapter"]? = some payloads.adapterJson ∧
      jsonPayloads["id_map"]? = some payloads.idMapJson ∧
      jsonPayloads["documents"]? = some payloads.documentsJson ∧
      jsonPayloads["metadata"]? = some payloads.metadataJson := by
  simp only [loadPayloads, Option.bind_eq_bind, Option.bind_eq_some_iff, Option.pure_def,
    Option.some.injEq] at h
  obtain ⟨_, hadapter, _, hidMap, _, hdocuments, _, hmetadata, rfl⟩ := h
  exact ⟨hadapter, hidMap, hdocuments, hmetadata⟩

/-- Writing the manifest and one of the payloads again leaves the number of rows. -/
theorem mem_jsonPayloads_metadata {jsonPayloads : Table String Text}
    {payloads : LegacyPayloads Text} (h : loadPayloads jsonPayloads = some payloads) :
    "metadata" ∈ jsonPayloads :=
  Std.ExtTreeMap.mem_iff_isSome_getElem?.mpr
    (Option.isSome_of_eq_some (mem_jsonPayloads_of_load h).2.2.2)

theorem loadPayloads_insert_metadata {jsonPayloads : Table String Text}
    {payloads : LegacyPayloads Text} (h : loadPayloads jsonPayloads = some payloads) (text : Text) :
    loadPayloads (jsonPayloads.insert "metadata" text) =
      some { payloads with metadataJson := text } := by
  obtain ⟨hadapter, hidMap, hdocuments, -⟩ := mem_jsonPayloads_of_load h
  have hother : ∀ key, key ≠ "metadata" →
      (jsonPayloads.insert "metadata" text)[key]? = jsonPayloads[key]? :=
    fun key hkey => Table.getElem?_insert_of_ne hkey
  simp [loadPayloads, hother, hadapter, hidMap, hdocuments]

/-- The sequence number of an edit is not in the audit log yet. -/
theorem FreshKeys.audit_new {tables : Tables Text} {manifest : Manifest}
    (h : FreshKeys tables manifest) {commitSequence : Nat}
    (hsequence : commitSequence = manifest.commitSequence + 1) :
    commitSequence ∉ tables.auditLog := fun hmem => by
  have := h.audit _ hmem
  omega

/-! ## Gc records -/

/-- What `record_generation_gc_inner` finds and leaves. -/
structure GcRecorded (codec : JsonCodec Text) (env : Env) (storeFile : StoreFile Text)
    (expected : Option StoreRevision) (updates : List GenerationGcUpdate) (after : Tables Text)
    (store : VerifiedAdapterStore Text) (parsed : ParsedPayloads)
    (generation : GenerationCheckpoint) : Prop where
  valid : updates.all validateGcUpdate
  file : storeFile = .tables storeFile.rows
  opens : Opens codec env.disk storeFile.rows none none store parsed generation
  revision : verifyExpectedRevision (some store) expected
  after : after = { storeFile.rows with
    metaRows := storeFile.rows.metaRows.insert "manifest"
      (some (updateGcManifestCounts store.manifest (store.manifest.commitSequence + 1)
        (store.manifest.tableCounts.gcQueue + updates.length)
        (store.manifest.tableCounts.auditLog + 1) (env.now 0)))
    gcQueue := storeFile.rows.gcQueue.insertMany
      (gcRows env store.manifest.tableCounts.gcQueue updates)
    auditLog := storeFile.rows.auditLog.insert (store.manifest.commitSequence + 1)
      (some (.generationGcRecorded (store.manifest.commitSequence + 1) updates.length
        (env.now (updates.length + 1)))) }

section Gc

variable {expected : Option StoreRevision} {updates : List GenerationGcUpdate}
  {after : Tables Text} {store : VerifiedAdapterStore Text} {parsed : ParsedPayloads}
  {generation : GenerationCheckpoint}

theorem gcTransaction_eq_some
    (h : gcTransaction codec env storeFile expected updates = some after) :
    ∃ store parsed generation,
      GcRecorded codec env storeFile expected updates after store parsed generation := by
  simp only [gcTransaction, Option.bind_eq_bind, Option.bind_eq_some_iff, Option.guard_eq_some',
    Option.pure_def, Option.some.injEq, exists_const] at h
  obtain ⟨hvalid, store, hstore, hrevision, sequence, hsequence, gcCount, hgc, auditCount, haudit,
    hafter⟩ := h
  obtain ⟨hfile, parsed, generation, hopens⟩ := currentStore_eq_some hstore
  obtain rfl := checkedAdd_eq_some hsequence
  obtain rfl := checkedAdd_eq_some hgc
  obtain rfl := checkedAdd_eq_some haudit
  exact ⟨store, parsed, generation, hvalid, hfile, hopens, hrevision, hafter.symm⟩

theorem keys_gcRows (env : Env) (count : Nat) (updates : List GenerationGcUpdate) :
    (gcRows env count updates).map Prod.fst = List.range' (count + 1) updates.length := by
  unfold gcRows
  rw [List.map_map]
  refine List.ext_getElem (by simp) fun i hi _ => ?_
  simp
  omega

/-- The keys of new gc rows follow the rows that are there. -/
theorem gcRows_new {tables : Tables Text} {manifest : Manifest} (h : FreshKeys tables manifest)
    (env : Env) (updates : List GenerationGcUpdate) :
    ∀ key ∈ (gcRows env manifest.tableCounts.gcQueue updates).map Prod.fst,
      key ∉ tables.gcQueue := by
  intro key hkey hmem
  rw [keys_gcRows, List.mem_range'_1] at hkey
  have := h.gc key hmem
  omega

theorem GcRecorded.counts
    (h : GcRecorded codec env storeFile expected updates after store parsed generation)
    (hfresh : storeFile.Fresh) :
    after.counts = { store.manifest.tableCounts with
      gcQueue := store.manifest.tableCounts.gcQueue + updates.length
      auditLog := store.manifest.tableCounts.auditLog + 1 } := by
  rw [h.file] at hfresh
  obtain ⟨manifest, hkeys⟩ := hfresh
  obtain rfl := Option.some.inj (hkeys.row.symm.trans h.opens.manifest)
  have hnodup : ((gcRows env store.manifest.tableCounts.gcQueue updates).map Prod.fst).Nodup := by
    rw [keys_gcRows]
    exact List.nodup_range'
  have hgc := Table.size_insertMany hnodup (gcRows_new hkeys env updates)
  have haudit := Table.size_insert_of_not_mem
    (v := some (AuditRow.generationGcRecorded (store.manifest.commitSequence + 1) updates.length
      (env.now (updates.length + 1)))) (hkeys.audit_new rfl)
  have hlength : (gcRows env store.manifest.tableCounts.gcQueue updates).length =
      updates.length := by simp [gcRows]
  rw [h.after, h.opens.counts]
  rw [h.opens.counts] at hgc hlength
  simp only [Tables.counts] at hgc hlength ⊢
  rw [hgc, haudit, hlength, Table.size_insert_of_mem (mem_metaRows_of_manifest h.opens.manifest)]

/-- A gc record leaves a store that opens when the counts are right. -/
theorem GcRecorded.opens_after
    (h : GcRecorded codec env storeFile expected updates after store parsed generation)
    (hcounts : after.counts = { store.manifest.tableCounts with
      gcQueue := store.manifest.tableCounts.gcQueue + updates.length
      auditLog := store.manifest.tableCounts.auditLog + 1 }) :
    Opens codec env.disk after none none
      ⟨store.manifest.edit (store.manifest.commitSequence + 1) (some (unixMs (env.now 0)))
        after.counts, store.payloads⟩ parsed generation := by
  refine h.opens.edit ?_ ?_ h.opens.parses ?_ ?_ fun _ => rfl
  · rw [hcounts, h.after]
    simp [Tables.manifest, updateGcManifestCounts, Manifest.edit]
  · rw [h.after]
    exact h.opens.payloads
  · rw [h.after]
    exact h.opens.rows
  · rw [h.after]

end Gc

/-! ## Metadata patches -/

/-- The last patch of an identifier. -/
def lastPatch (id : String) (patches : List MetadataPatch) : Option MetadataPatch :=
  patches.reverse.find? fun patch => patch.id = id

/-- The metadata that the patches leave under an identifier does not fit into a payload that
the reader accepts. -/
def NestsTooDeep (patches : List MetadataPatch) : Prop :=
  ∃ id patch, lastPatch id patches = some patch ∧ maxMetadataDepth < patch.value.depth

theorem lastPatch_mem {id : String} {patches : List MetadataPatch} {patch : MetadataPatch}
    (h : lastPatch id patches = some patch) : patch ∈ patches ∧ patch.id = id :=
  ⟨List.mem_reverse.mp (List.mem_of_find?_eq_some h), by simpa using List.find?_some h⟩

theorem lastPatch_isSome {patches : List MetadataPatch} {patch : MetadataPatch}
    (h : patch ∈ patches) : (lastPatch patch.id patches).isSome :=
  List.find?_isSome.mpr ⟨patch, List.mem_reverse.mpr h, by simp⟩

theorem ParsedPayloads.patchMetadata_eq_some {parsed patched : ParsedPayloads}
    {patches : List MetadataPatch} (h : parsed.patchMetadata patches = some patched) :
    (∀ patch ∈ patches, patch.id ∈ parsed.stringToU64) ∧
      patched = { parsed with metadata := patched.metadata } ∧
      ∀ id : String, patched.metadata[id]? =
        ((lastPatch id patches).map (·.value)).or parsed.metadata[id]? := by
  induction patches generalizing parsed with
  | nil =>
    obtain rfl := Option.some.inj h
    exact ⟨by simp, rfl, fun id => by simp [lastPatch]⟩
  | cons patch rest ih =>
    unfold patchMetadata at h
    obtain ⟨⟨-, hid⟩, hrest⟩ := Option.ite_none_right_eq_some.mp h
    obtain ⟨hids, hsame, hvalues⟩ := ih hrest
    refine ⟨List.forall_mem_cons.mpr ⟨hid, hids⟩, hsame, fun id => ?_⟩
    rw [hvalues]
    simp only [lastPatch, List.reverse_cons, List.find?_append]
    cases hlast : rest.reverse.find? fun patch => patch.id = id with
    | some last => simp
    | none =>
      rcases eq_or_ne id patch.id with rfl | hne
      · simp
      · simp [Table.getElem?_insert_of_ne hne, hne.symm]

/-- What `commit_metadata_patch` finds and leaves. -/
structure Patched (codec : JsonCodec Text) (env : Env) (storeFile : StoreFile Text)
    (expected : StoreRevision) (patches : List MetadataPatch) (after : Tables Text)
    (store : VerifiedAdapterStore Text) (parsed : ParsedPayloads)
    (generation : GenerationCheckpoint) (metadata : Table String Value)
    (rows : List (Nat × Value)) : Prop where
  nonempty : patches ≠ []
  file : storeFile = .tables storeFile.rows
  opens : Opens codec env.disk storeFile.rows none none store parsed generation
  revision : verifyExpectedRevision (some store) (some expected)
  ids : ∀ patch ∈ patches, patch.id ∈ parsed.stringToU64
  valid : ParsedPayloads.ValidMaps { parsed with metadata }
  values : ∀ id : String, metadata[id]? =
    ((lastPatch id patches).map (·.value)).or parsed.metadata[id]?
  patchRows : ParsedPayloads.patchRows { parsed with metadata } patches = some rows
  after : after = { storeFile.rows with
    metaRows := storeFile.rows.metaRows.insert "manifest"
      (some (updateMetadataPatchManifest store.manifest (store.manifest.commitSequence + 1)
        (store.manifest.tableCounts.auditLog + 1) (env.now 0)))
    jsonPayloads := storeFile.rows.jsonPayloads.insert "metadata"
      (codec.write (.ofTable (metadataObject metadata)))
    metadata := storeFile.rows.metadata.insertMany
      (rows.map fun row => (row.1, codec.write row.2))
    auditLog := storeFile.rows.auditLog.insert (store.manifest.commitSequence + 1)
      (some (.metadataPatched (store.manifest.commitSequence + 1) patches.length
        store.manifest.activeGenerationId store.manifest.activeGenerationPath (env.now 1))) }

section Patch

variable {expected : StoreRevision} {patches : List MetadataPatch} {after : Tables Text}
  {store : VerifiedAdapterStore Text} {parsed : ParsedPayloads} {generation : GenerationCheckpoint}
  {metadata : Table String Value} {rows : List (Nat × Value)}

theorem patchTransaction_eq_some
    (h : patchTransaction codec env storeFile expected patches = some after) :
    ∃ store parsed generation metadata rows, Patched codec env storeFile expected patches after
      store parsed generation metadata rows := by
  simp only [patchTransaction, Option.bind_eq_bind, Option.bind_eq_some_iff, Option.guard_eq_some',
    Option.pure_def, Option.some.injEq, exists_const] at h
  obtain ⟨hnonempty, store, hstore, hrevision, read, hread, patched, hpatched, hvalid, sequence,
    hsequence, auditCount, haudit, rows, hrows, hafter⟩ := h
  obtain ⟨hfile, parsed, generation, hopens⟩ := currentStore_eq_some hstore
  obtain rfl := Option.some.inj (hread.symm.trans hopens.parses)
  obtain ⟨hids, hsame, hvalues⟩ := read.patchMetadata_eq_some hpatched
  obtain rfl := checkedAdd_eq_some hsequence
  obtain rfl := checkedAdd_eq_some haudit
  rw [hsame] at hvalid hrows
  exact ⟨store, read, generation, patched.metadata, rows, hnonempty, hfile, hopens, hrevision, hids,
    hvalid, hvalues, hrows, hafter.symm⟩

/-- The rows of a patch are the new values of the patched identifiers. -/
theorem Patched.row_iff
    (h : Patched codec env storeFile expected patches after store parsed generation metadata rows)
    {u64 : Nat} {value : Value} :
    (u64, value) ∈ rows ↔ ∃ id, (lastPatch id patches).isSome ∧
      parsed.u64ForString id = some u64 ∧ metadata[id]? = some value := by
  have hrows := Table.filterMap_of_mapM h.patchRows
  rw [← hrows, List.mem_filterMap]
  simp only [Option.bind_eq_bind, Option.bind_eq_some_iff, Option.pure_def, Option.some.injEq,
    Prod.mk.injEq]
  constructor
  · rintro ⟨patch, hpatch, u64, hu64, value, hvalue, rfl, rfl⟩
    exact ⟨patch.id, lastPatch_isSome hpatch, hu64, hvalue⟩
  · rintro ⟨id, hlast, hu64, hvalue⟩
    obtain ⟨patch, hpatch⟩ := Option.isSome_iff_exists.mp hlast
    obtain ⟨hmem, rfl⟩ := lastPatch_mem hpatch
    exact ⟨patch, hmem, u64, hu64, value, hvalue, rfl, rfl⟩

/-- They replace rows that are there. -/
theorem Patched.rows_mem
    (h : Patched codec env storeFile expected patches after store parsed generation metadata rows) :
    ∀ key ∈ (rows.map fun row => (row.1, codec.write row.2)).map Prod.fst,
      key ∈ storeFile.rows.metadata := by
  intro key hkey
  simp only [List.map_map, List.mem_map, Function.comp_apply, Prod.exists, exists_and_right,
    exists_eq_right] at hkey
  obtain ⟨value, hrow⟩ := hkey
  obtain ⟨id, -, hid, -⟩ := h.row_iff.mp hrow
  have hmem : id ∈ parsed.metadata := by
    rw [← Std.ExtTreeMap.mem_keys, (ParsedPayloads.parse_validMaps h.opens.parses).metadata,
      Std.ExtTreeMap.mem_keys]
    exact Std.ExtTreeMap.mem_iff_isSome_getElem?.mpr (Option.isSome_of_eq_some hid)
  obtain ⟨before, hbefore⟩ :=
    Option.isSome_iff_exists.mp (Std.ExtTreeMap.mem_iff_isSome_getElem?.mp hmem)
  obtain ⟨u64, text, _, hu64, htext, -⟩ :=
    (verifyTablesMatchPayloads_iff.mp h.opens.rows).2.2 id before hbefore
  obtain rfl := Option.some.inj (hid.symm.trans hu64)
  exact Std.ExtTreeMap.mem_iff_isSome_getElem?.mpr (Option.isSome_of_eq_some htext)

theorem Patched.counts
    (h : Patched codec env storeFile expected patches after store parsed generation metadata rows)
    (hfresh : storeFile.Fresh) :
    after.counts = { store.manifest.tableCounts with
      auditLog := store.manifest.tableCounts.auditLog + 1 } := by
  rw [h.file] at hfresh
  obtain ⟨manifest, hkeys⟩ := hfresh
  obtain rfl := Option.some.inj (hkeys.row.symm.trans h.opens.manifest)
  have haudit := Table.size_insert_of_not_mem
    (v := some (AuditRow.metadataPatched (store.manifest.commitSequence + 1) patches.length
      store.manifest.activeGenerationId store.manifest.activeGenerationPath (env.now 1)))
    (hkeys.audit_new rfl)
  rw [h.after, h.opens.counts]
  simp only [Tables.counts]
  rw [haudit, Table.size_insert_of_mem (mem_metaRows_of_manifest h.opens.manifest),
    Table.size_insert_of_mem (mem_jsonPayloads_metadata h.opens.payloads),
    Table.size_insertMany_of_mem h.rows_mem]

/-- A value that the patches leave is canonical. -/
theorem Patched.canonical
    (h : Patched codec env storeFile expected patches after store parsed generation metadata rows)
    {id : String} {value : Value} (hvalue : metadata[id]? = some value) :
    value.Canonical ∧ value.asObject.isSome := by
  rw [h.values] at hvalue
  cases hlast : lastPatch id patches with
  | none =>
    rw [hlast] at hvalue
    obtain ⟨hcanonical, hobject, -⟩ := ParsedPayloads.parse_metadata h.opens.parses hvalue
    exact ⟨hcanonical, hobject⟩
  | some patch =>
    rw [hlast] at hvalue
    obtain rfl := Option.some.inj hvalue
    exact ⟨Value.canonical_ofTable patch.canonical, by simp [MetadataPatch.value]⟩

/-- Values of earlier commits fit. -/
theorem Patched.depth_iff
    (h : Patched codec env storeFile expected patches after store parsed generation metadata rows) :
    (Value.ofTable (metadataObject metadata)).depth ≤ maxReadDepth ↔ ¬NestsTooDeep patches := by
  rw [depth_metadataObject_le]
  constructor
  · rintro hdepth ⟨id, patch, hlast, hdeep⟩
    have hvalue := h.values id
    rw [hlast] at hvalue
    exact absurd (hdepth id patch.value hvalue) (Nat.not_le_of_lt hdeep)
  · intro hfits id value hvalue
    rw [h.values] at hvalue
    cases hlast : lastPatch id patches with
    | none =>
      rw [hlast] at hvalue
      exact (ParsedPayloads.parse_metadata h.opens.parses hvalue).2.2
    | some patch =>
      rw [hlast] at hvalue
      obtain rfl := Option.some.inj hvalue
      exact Nat.le_of_not_lt fun hdeep => hfits ⟨id, patch, hlast, hdeep⟩

/-- The rows match the patched payloads. -/
theorem Patched.rows_match
    (h : Patched codec env storeFile expected patches after store parsed generation metadata rows)
    (hfits : ¬NestsTooDeep patches) :
    verifyTablesMatchPayloads codec after { parsed with metadata } := by
  obtain ⟨hmaps, hdocuments, hmetadata⟩ := verifyTablesMatchPayloads_iff.mp h.opens.rows
  have hinjective : ∀ {a b : String} {u64 : Nat}, parsed.u64ForString a = some u64 →
      parsed.u64ForString b = some u64 → a = b := fun ha hb =>
    (ParsedPayloads.parse_validMaps h.opens.parses).u64ForString_injective ha hb
  have hdepth := depth_metadataObject_le.mp (h.depth_iff.mpr hfits)
  rw [h.after]
  refine verifyTablesMatchPayloads_iff.mpr ⟨hmaps, hdocuments, fun id value hvalue => ?_⟩
  obtain ⟨u64, hu64⟩ := ParsedPayloads.u64ForString_of_keys h.valid.metadata hvalue
  cases hlast : lastPatch id patches with
  | some patch =>
    refine ⟨u64, codec.write value, value, hu64, ?_, ?_, value.equals_refl⟩
    · refine Table.insertMany_of_agree (fun row hrow hkey => ?_) ?_
      · -- a row with this id is the row of this string
        obtain ⟨⟨u64', value'⟩, hmem, rfl⟩ := List.mem_map.mp hrow
        obtain ⟨id', -, hid', hvalue'⟩ := h.row_iff.mp hmem
        obtain rfl : u64' = u64 := hkey
        obtain rfl := hinjective hid' hu64
        rw [Option.some.inj (hvalue'.symm.trans hvalue)]
      · refine List.mem_map.mpr ⟨(u64, codec.write value), List.mem_map.mpr ⟨(u64, value), ?_, rfl⟩,
          rfl⟩
        exact h.row_iff.mpr ⟨id, Option.isSome_of_eq_some hlast, hu64, hvalue⟩
    · obtain ⟨hcanonical, hobject⟩ := h.canonical hvalue
      obtain ⟨members, hmembers⟩ := Option.isSome_iff_exists.mp hobject
      obtain ⟨rfl, -⟩ := hcanonical.eq_ofTable hmembers
      rw [parseJsonObject_write codec hcanonical, if_pos]
      exact (hdepth id _ hvalue).trans (by decide)
  | none =>
    rw [h.values, hlast] at hvalue
    obtain ⟨u64', text, stored, hu64', htext, hread, hequals⟩ := hmetadata id value hvalue
    refine ⟨u64', text, stored, hu64', ?_, hread, hequals⟩
    rw [← htext]
    refine Table.insertMany_of_not_mem fun hkey => ?_
    simp only [List.map_map, List.mem_map, Function.comp_apply, Prod.exists, exists_and_right,
      exists_eq_right] at hkey
    obtain ⟨value', hrow⟩ := hkey
    obtain ⟨id', hpatched, hid', -⟩ := h.row_iff.mp hrow
    obtain rfl := hinjective hid' hu64'
    rw [hlast] at hpatched
    cases hpatched

/-- A patch leaves a store that opens exactly when its metadata does not nest too deep, given
that the counts are right. -/
theorem Patched.opens_iff
    (h : Patched codec env storeFile expected patches after store parsed generation metadata rows)
    (hcounts : after.counts = { store.manifest.tableCounts with
      auditLog := store.manifest.tableCounts.auditLog + 1 }) :
    (¬NestsTooDeep patches → Opens codec env.disk after none none
      ⟨store.manifest.edit (store.manifest.commitSequence + 1) (some (unixMs (env.now 0)))
        after.counts,
        { store.payloads with metadataJson := codec.write (.ofTable (metadataObject metadata)) }⟩
      { parsed with metadata } generation) ∧
    (NestsTooDeep patches →
      ∀ disk allowedPrepared, openTables codec disk after none allowedPrepared = none) := by
  have hpayloads : loadPayloads after.jsonPayloads =
      some { store.payloads with metadataJson := codec.write (.ofTable (metadataObject metadata)) } := by
    rw [h.after]
    exact loadPayloads_insert_metadata h.opens.payloads _
  have hparse := ParsedPayloads.parse_withMetadata h.opens.parses h.valid fun id value =>
    h.canonical
  constructor
  · intro hfits
    refine h.opens.edit ?_ hpayloads ?_ (h.rows_match hfits) ?_ fun hlazy => ?_
    · rw [hcounts, h.after]
      simp [Tables.manifest, updateMetadataPatchManifest, Manifest.edit]
    · rw [hparse, if_pos (h.depth_iff.mpr hfits)]
    · rw [h.after]
    · -- an empty store has no identifiers to patch
      have hempty := h.opens.validated
      simp only [ParsedPayloads.validateAgainstGeneration, hlazy, if_true, Bool.and_eq_true,
        decide_eq_true_eq] at hempty
      obtain ⟨patch, hpatch⟩ := List.exists_mem_of_ne_nil patches h.nonempty
      have hid := h.ids patch hpatch
      rw [hempty.2.1.1.1.2] at hid
      simp at hid
  · intro hdeep disk allowedPrepared
    refine Option.eq_none_iff_forall_ne_some.mpr fun opened hopened => ?_
    obtain ⟨read, _, hread⟩ := openTables_eq_some.mp hopened
    obtain hsame := Option.some.inj (hpayloads.symm.trans hread.payloads)
    have hparses := hread.parses
    rw [← hsame, hparse, if_neg (mt h.depth_iff.mp (not_not_intro hdeep))] at hparses
    cases hparses

end Patch

end OrdinalDB.Store
