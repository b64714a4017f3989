import OrdinalDB.Adapter.IdMap
import OrdinalDB.Store.Collector
import OrdinalDB.Store.Openability

/-!
# Verifying a legacy adapter directory

`verify` of `ordinaldb-cli/src/main.rs`. A directory with a file `manifest.json`
is a core bundle for it, and one with a file `adapter.redb` a store. Of any other
it checks the JSON files with code of its own, where `import` checks them with
the parser of the adapter store.

`verify_iff_import` says how the two validators differ on the same files:
`verify` accepts what `import` accepts and `Stricter` allows.
-/

namespace OrdinalDB.Cli

open Store Json

open Adapter (slotEntry slotEntry_eq_some withStringId_key)

variable {Text : Type}

/-! ## The files -/

/-- A regular file, with what `sha256_file` reports of it. -/
structure SidecarFile (Text : Type) where
  text : Text
  sha256 : String
  sizeBytes : Nat

/-- The four files of a directory; `none` is no regular file. -/
structure LegacyDirectory (Text : Type) where
  adapter : Option Text
  idMap : Option (SidecarFile Text)
  documents : Option (SidecarFile Text)
  metadata : Option (SidecarFile Text)

/-- `read_legacy_payload` of every file. -/
def LegacyDirectory.payloads (directory : LegacyDirectory Text) : Option (LegacyPayloads Text) := do
  let adapter ← directory.adapter
  let idMap ← directory.idMap
  let documents ← directory.documents
  let metadata ← directory.metadata
  pure {
    adapterJson := adapter
    idMapJson := idMap.text
    documentsJson := documents.text
    metadataJson := metadata.text }

/-! ## Checks on the files -/

/-- `read_json`, of an object. -/
def readObject (codec : JsonCodec Text) (text : Text) : Option Object :=
  (parseJsonObject codec text).bind Value.asObject

def requireExactObject (object : Object) (expected : List String) : Bool :=
  object.size = expected.length && expected.all (· ∈ object)

def requireSchema (object : Object) (expected : String) : Bool :=
  requiredString object "schema_version" = some expected

/-- The outer option is the error. -/
def optionalDim (object : Object) : Option (Option Nat) :=
  match object["dim"]? with
  | none | some .null => some none
  | some value => ((asU64 value).filter fun dim => 2 ≤ dim ∧ dim ≤ 65535).map some

def isLowerHex (c : Char) : Bool := ('0' ≤ c && c ≤ '9') || ('a' ≤ c && c ≤ 'f')

def validateSidecarDescriptor (expected : Value) : Option (String × Nat) := do
  let expected ← expected.asObject
  let expectedSha ← requiredString expected "sha256"
  guard (expectedSha.toList.length = 64 && expectedSha.toList.all isLowerHex)
  let expectedSize ← requiredU64 expected "file_size_bytes"
  guard (expected.size = 2)
  pure (expectedSha, expectedSize)

def verifySidecar (file : Option (SidecarFile Text)) (expected : Value) : Option Unit := do
  let (expectedSha, expectedSize) ← validateSidecarDescriptor expected
  let file ← file
  guard (file.sha256 = expectedSha ∧ file.sizeBytes = expectedSize)

/-- The step of the loop over the sidecars. -/
def verifySidecarOf (sidecars : Object) (entry : String × Option (SidecarFile Text)) :
    Option Unit :=
  sidecars[entry.1]?.bind (verifySidecar entry.2)

/-- Every sidecar under its name. -/
def LegacyDirectory.sidecars (directory : LegacyDirectory Text) :
    List (String × Option (SidecarFile Text)) :=
  [("id_map.json", directory.idMap), ("documents.json", directory.documents),
    ("metadata.json", directory.metadata)]

def adapterKeys : List String :=
  ["schema_version", "adapter", "bits", "dim", "empty_lazy", "index_path", "sidecars"]

def requireLegacyAdapterMarkerShape (directory : LegacyDirectory Text) (adapter : Object) :
    Option Unit := do
  guard (requireExactObject adapter adapterKeys)
  guard (requireSchema adapter "ordinaldb.adapter.v1")
  let _ ← requiredString adapter "adapter"
  let _ ← requiredBits adapter
  let _ ← optionalDim adapter
  let _ ← requiredBool adapter "empty_lazy"
  let _ ← (requiredString adapter "index_path").filter validateIndexPath
  let sidecars ← requiredObject adapter "sidecars"
  let _ ← directory.sidecars.mapM fun (name, _) =>
    sidecars[name]?.bind validateSidecarDescriptor
  guard (sidecars.size = 3)

/-! ## Checks on the maps -/

def sameKeys (left right : Object) : Bool :=
  left.size = right.size && left.keys.all (· ∈ right)

/-- The loop over `string_to_u64`, with the u64 ids that it has seen. -/
def verifyStringIds (nextU64Id : Nat) : List (String × Value) → List Nat → Option (List Nat)
  | [], seenU64 => some seenU64
  | (stringId, value) :: rest, seenU64 => do
    guard (stringId ≠ "")
    let u64Id ← asU64 value
    guard (u64Id ∉ seenU64)
    guard (u64Id < nextU64Id)
    verifyStringIds nextU64Id rest (u64Id :: seenU64)

/-- The loop over `u64_to_slot`, with the slots and the u64 ids that it has seen. -/
def verifySlots (indexLen : Nat) : List (String × Value) → List Nat → List Nat → Option (List Nat)
  | [], _, actualU64 => some actualU64
  | (key, value) :: rest, seenSlots, actualU64 => do
    let u64Id ← parseU64 key
    let slot ← asU64 value
    guard (slot < indexLen)
    guard (slot ∉ seenSlots)
    verifySlots indexLen rest (slot :: seenSlots) (u64Id :: actualU64)

def verifyAdapterMaps (stringToU64 u64ToSlot documents metadata : Object)
    (nextU64Id indexLen : Nat) : Option Unit := do
  guard (sameKeys documents stringToU64)
  guard (sameKeys metadata stringToU64)
  guard (stringToU64.size = indexLen ∧ u64ToSlot.size = indexLen)
  let seenU64 ← verifyStringIds nextU64Id stringToU64.toList []
  guard (documents.toList.all fun row => row.1 ≠ "" && (asStr row.2).isSome)
  guard (metadata.toList.all fun row => row.1 ≠ "" && row.2.asObject.isSome)
  let actualU64 ← verifySlots indexLen u64ToSlot.toList [] []
  guard (actualU64 ⊆ seenU64 ∧ seenU64 ⊆ actualU64)

/-! ## The directory -/

/-- `reject_empty_lazy_vector_artifacts` passes; `vectors/` may not even be empty. -/
def noVectorArtifacts (disk : Disk) (indexPath : String) : Bool :=
  ([indexPath, indexDir].all fun relative => !(locate relative).any disk.exists?) &&
    disk.vectors.isNone

/-- The checks on the index: the rows of the manifest, which an empty adapter does not have. -/
def verifyIndex (disk : Disk) (emptyLazy : Bool) (indexPath : String) (bits : Nat)
    (dim : Option Nat) : Option Nat :=
  if emptyLazy then pure 0
  else do
    let bundle ← disk.bundle indexPath
    guard (bundle.bits = bits)
    guard (dim = some bundle.dim)
    pure bundle.vectorCount

/-- What `adapter.json` says. -/
structure AdapterHeader where
  bits : Nat
  dim : Option Nat
  emptyLazy : Bool
  indexPath : String

/-- The checks on `adapter.json` and on the digests of the other files. -/
def verifyHeader (directory : LegacyDirectory Text) (adapter : Object) : Option AdapterHeader := do
  guard (requireExactObject adapter adapterKeys)
  guard (requireSchema adapter "ordinaldb.adapter.v1")
  let bits ← requiredBits adapter
  let dim ← optionalDim adapter
  let emptyLazy ← requiredBool adapter "empty_lazy"
  let indexPath ← (requiredString adapter "index_path").filter validateIndexPath
  let sidecars ← requiredObject adapter "sidecars"
  let _ ← directory.sidecars.mapM (verifySidecarOf sidecars)
  guard (sidecars.size = 3)
  pure { bits, dim, emptyLazy, indexPath }

/-- The maps of the other files. -/
structure AdapterMaps where
  stringToU64 : Object
  u64ToSlot : Object
  nextU64Id : Nat
  documents : Object
  metadata : Object

def readMaps (idMap documents metadata : Object) : Option AdapterMaps := do
  guard (requireExactObject idMap
    ["schema_version", "next_u64_id", "string_to_u64", "u64_to_slot"])
  guard (requireExactObject documents ["schema_version", "documents"])
  guard (requireExactObject metadata ["schema_version", "metadata"])
  guard (requireSchema idMap "ordinaldb.adapter.id_map.v1")
  guard (requireSchema documents "ordinaldb.adapter.documents.v1")
  guard (requireSchema metadata "ordinaldb.adapter.metadata.v1")
  let stringToU64 ← requiredObject idMap "string_to_u64"
  let u64ToSlot ← requiredObject idMap "u64_to_slot"
  let nextU64Id ← requiredU64 idMap "next_u64_id"
  let documents ← requiredObject documents "documents"
  let metadata ← requiredObject metadata "metadata"
  pure { stringToU64, u64ToSlot, nextU64Id, documents, metadata }

/-- `verify_adapter_directory` without `adapter.redb`. -/
def verifyAdapterDirectory (codec : JsonCodec Text) (directory : LegacyDirectory Text)
    (disk : Disk) : Option Unit := do
  let adapter ← directory.adapter.bind (readObject codec)
  let header ← verifyHeader directory adapter
  let idMap ← directory.idMap.bind fun file => readObject codec file.text
  let documents ← directory.documents.bind fun file => readObject codec file.text
  let metadata ← directory.metadata.bind fun file => readObject codec file.text
  let maps ← readMaps idMap documents metadata
  guard (header.emptyLazy → header.dim = none ∧ noVectorArtifacts disk header.indexPath)
  let _ ← generationDirectorySummary disk
    (if header.emptyLazy then none else some header.indexPath)
  let indexLen ← verifyIndex disk header.emptyLazy header.indexPath header.bits header.dim
  verifyAdapterMaps maps.stringToU64 maps.u64ToSlot maps.documents maps.metadata maps.nextU64Id
    indexLen

/-- `verify_path` of a directory with neither `manifest.json` nor `adapter.redb`. -/
def verifyMarked (codec : JsonCodec Text) (directory : LegacyDirectory Text) (disk : Disk) :
    Option Unit := do
  let adapter ← directory.adapter.bind (readObject codec)
  requireLegacyAdapterMarkerShape directory adapter
  verifyAdapterDirectory codec directory disk

inductive StoreEntry
  | file
  | directory
deriving DecidableEq

/-- The files of a directory, whether `manifest.json` is a file, and what `adapter.redb` is. -/
structure AdapterPath (Text : Type) where
  files : LegacyDirectory Text
  manifestFile : Bool
  store : Option StoreEntry

inductive PathKind
  | coreBundle
  | adapterDirectory

def classifyPath (codec : JsonCodec Text) (path : AdapterPath Text) : Option PathKind :=
  if path.manifestFile then some .coreBundle
  else if path.store = some .file then some .adapterDirectory
  else do
    let adapter ← path.files.adapter.bind (readObject codec)
    requireLegacyAdapterMarkerShape path.files adapter
    pure .adapterDirectory

/-- The verdicts on what is no legacy adapter: `verify_core_bundle`, and the branch of
`verify_adapter_directory` for a store. -/
structure Verdicts where
  coreBundle : Option Unit
  store : Option Unit

def verifyPath (codec : JsonCodec Text) (verdicts : Verdicts) (path : AdapterPath Text)
    (disk : Disk) : Option Unit := do
  match ← classifyPath codec path with
  | .coreBundle => verdicts.coreBundle
  | .adapterDirectory =>
    if path.store = some .file then verdicts.store
    else verifyAdapterDirectory codec path.files disk

/-- `import_legacy_adapter` once the directory is copied, up to the revision export. -/
def importLegacyAdapter (codec : JsonCodec Text) (env : Env) (directory : LegacyDirectory Text) :
    Outcome Text :=
  match directory.payloads with
  | none => (none, .missing)
  | some payloads =>
    writeLegacySnapshotInner codec env .missing none payloads .importedLegacyJson

/-- `import_legacy_adapter` of a directory that can be copied, up to the revision export: it is
refused for anything with the name of the store. -/
def importPath (codec : JsonCodec Text) (env : Env) (path : AdapterPath Text) : Outcome Text :=
  if path.store.isSome then (none, .missing) else importLegacyAdapter codec env path.files

/-! ## The import -/

section Import

variable {codec : JsonCodec Text} {env : Env} {payloads : LegacyPayloads Text}
  {origin : StoreOrigin}

/-- Nothing overflows in a first snapshot. -/
theorem first_plan {parsed : ParsedPayloads} {generation : GenerationCheckpoint}
    (hparse : ParsedPayloads.parse codec payloads = some parsed)
    (hcheckpoint : activeGenerationCheckpoint env.disk parsed none = some generation)
    (hvalidated : parsed.validateAgainstGeneration generation) :
    ∃ plan, prepareSnapshot codec env .missing none payloads origin = some plan := by
  have hone : checkedAdd 0 1 = some 1 := if_pos (by decide)
  obtain ⟨count, hcount⟩ :
      ∃ count, snapshotGenerationCount parsed generation none = some count := by
    by_cases hlazy : parsed.emptyLazy = true
    · exact ⟨0, by simp [snapshotGenerationCount, hlazy, previousCount]⟩
    · exact ⟨1, by simp [snapshotGenerationCount, hlazy, previousCount, hone]⟩
  have hcounts : ∃ counts, snapshotTableCounts parsed generation none = some counts := by
    simp [snapshotTableCounts, hcount, previousCount, hone]
  obtain ⟨counts, hcounts⟩ := hcounts
  have hmanifest : ∃ manifest, adapterStoreManifest env parsed generation counts none origin =
      some manifest := ⟨_, rfl⟩
  obtain ⟨manifest, hmanifest⟩ := hmanifest
  exact ⟨⟨parsed, generation, manifest⟩, prepareSnapshot_eq_some.mpr ⟨none, counts, hparse,
    hcheckpoint, hvalidated, rfl, rfl, hcounts, hmanifest⟩⟩

/-- A first snapshot opens with the payloads and a manifest that describes them. -/
theorem snapshot_opens {parsed : ParsedPayloads} {generation : GenerationCheckpoint}
    (hparse : ParsedPayloads.parse codec payloads = some parsed)
    (hcheckpoint : activeGenerationCheckpoint env.disk parsed none = some generation)
    (hvalidated : parsed.validateAgainstGeneration generation) :
    ∃ manifest, (writeLegacySnapshotInner codec env .missing none payloads origin).1 =
        some ⟨manifest, payloads⟩ ∧
      verifyManifestPayloads manifest parsed ∧ verifyManifestGeneration manifest generation := by
  obtain ⟨plan, hplan⟩ := @first_plan _ codec env payloads origin _ _ hparse hcheckpoint hvalidated
  obtain ⟨_, _, hprepared⟩ := prepareSnapshot_eq_some.mp hplan
  obtain rfl := Option.some.inj (hprepared.parses.symm.trans hparse)
  obtain rfl := Option.some.inj (hprepared.checkpoint.symm.trans hcheckpoint)
  obtain ⟨next, hnext, -⟩ := hprepared.generations
  obtain ⟨after, hafter, hwritten⟩ :=
    @writeSnapshotTransaction_eq_some _ codec env _ _ _ _ hprepared.parses hnext
  have hnew : ¬Reactivates codec .missing payloads := by
    rintro ⟨_, id, record, -, -, -, hrecord, -⟩
    simp [StoreFile.rows, Tables.empty] at hrecord
  have hopens := (hprepared.opens_iff trivial hwritten).1 hnew
  obtain ⟨-, hfields, hgeneration, -⟩ := hprepared.manifest_verified
  refine ⟨plan.manifest, ?_, hfields, hgeneration⟩
  unfold writeLegacySnapshotInner
  rw [hplan]
  simp only [hafter]
  exact hopens

/-- A first snapshot is written when the parser and the checks against the generation accept. -/
theorem snapshot_isSome :
    (writeLegacySnapshotInner codec env .missing none payloads origin).1.isSome ↔
      ∃ parsed generation, ParsedPayloads.parse codec payloads = some parsed ∧
        activeGenerationCheckpoint env.disk parsed none = some generation ∧
        parsed.validateAgainstGeneration generation := by
  constructor
  · intro h
    unfold writeLegacySnapshotInner at h
    cases hplan : prepareSnapshot codec env .missing none payloads origin with
    | none => simp [hplan] at h
    | some plan =>
      obtain ⟨_, _, hprepared⟩ := prepareSnapshot_eq_some.mp hplan
      exact ⟨_, _, hprepared.parses, hprepared.checkpoint, hprepared.validated⟩
  · rintro ⟨parsed, generation, hparse, hcheckpoint, hvalidated⟩
    obtain ⟨manifest, hwritten, -⟩ := @snapshot_opens _ codec env payloads origin _ _ hparse
      hcheckpoint hvalidated
    rw [hwritten]
    rfl

end Import

/-! ## The maps -/

section Maps

variable {object slots : Object} {nextU64Id indexLen : Nat}

theorem requireExactObject_iff {expected : List String} (h : expected.Nodup) :
    requireExactObject object expected ↔ requireExactKeys object expected := by
  have hkeys : object.keys.Nodup := object.nodup_keys
  have hsize : object.size = object.keys.length := Std.ExtTreeMap.length_keys.symm
  rw [requireExactKeys_iff]
  simp only [requireExactObject, Bool.and_eq_true, decide_eq_true_eq, List.all_eq_true, hsize]
  constructor
  · rintro ⟨hlength, hmem⟩ key
    have hsub : expected ⊆ object.keys := fun key hkey =>
      Std.ExtTreeMap.mem_keys.mpr (hmem key hkey)
    have hback := (Table.length_eq_iff_subset h hkeys hsub).mp hlength
    exact ⟨fun hkey => hback (Std.ExtTreeMap.mem_keys.mpr hkey), hmem key⟩
  · intro hsame
    have hperm : object.keys.Perm expected := (List.perm_ext_iff_of_nodup hkeys h).mpr fun key =>
      Std.ExtTreeMap.mem_keys.trans (hsame key)
    exact ⟨hperm.length_eq, fun key hkey => (hsame key).mpr hkey⟩

/-- Sorted keys are the same when their members are. -/
theorem keys_eq_iff {V W : Type} {left : Table String V} {right : Table String W} :
    left.keys = right.keys ↔ ∀ key, key ∈ left ↔ key ∈ right := by
  simp only [← Std.ExtTreeMap.mem_keys]
  constructor
  · exact fun hsame key => by rw [hsame]
  · intro hsame
    refine List.Perm.eq_of_pairwise (fun a b _ _ hab hba => ?_) left.ordered_keys
      right.ordered_keys ((List.perm_ext_iff_of_nodup left.nodup_keys right.nodup_keys).mpr hsame)
    rw [Std.OrientedOrd.eq_swap, hab] at hba
    cases hba

theorem sameKeys_iff {left right : Object} : sameKeys left right ↔ left.keys = right.keys := by
  have hlength : ∀ object : Object, object.size = object.keys.length := fun object =>
    Std.ExtTreeMap.length_keys.symm
  simp only [sameKeys, Bool.and_eq_true, decide_eq_true_eq, List.all_eq_true, hlength,
    ← Std.ExtTreeMap.mem_keys]
  constructor
  · rintro ⟨hsize, hsub⟩
    have hback := (Table.length_eq_iff_subset left.nodup_keys right.nodup_keys hsub).mp hsize.symm
    refine keys_eq_iff.mpr fun key => ?_
    rw [← Std.ExtTreeMap.mem_keys, ← Std.ExtTreeMap.mem_keys]
    exact ⟨fun hkey => hsub key hkey, fun hkey => hback hkey⟩
  · rintro hsame
    rw [hsame]
    exact ⟨rfl, fun _ hkey => hkey⟩

/-- The first loop: every id is read, and no u64 id comes twice. -/
theorem verifyStringIds_eq_some {rows : List (String × Value)} {seen result : List Nat} :
    verifyStringIds nextU64Id rows seen = some result ↔
      ∃ entries, rows.mapM (fun row => withStringId asU64 row.1 row.2) = some entries ∧
        (entries.map Prod.snd).Nodup ∧
        (∀ entry ∈ entries, entry.2 < nextU64Id ∧ entry.2 ∉ seen) ∧
        result = (entries.map Prod.snd).reverse ++ seen := by
  induction rows generalizing seen with
  | nil => simp [verifyStringIds, eq_comm]
  | cons row rows ih =>
    obtain ⟨stringId, value⟩ := row
    simp only [verifyStringIds, Option.bind_eq_bind, Option.bind_eq_some_iff,
      Option.guard_eq_some', exists_const, ih, List.mapM_cons, Option.pure_def,
      Option.some.injEq]
    constructor
    · rintro ⟨hid, u64Id, hu64, hnew, hnext, entries, hentries, hnodup, hbound, rfl⟩
      refine ⟨(stringId, u64Id) :: entries, ⟨_, ?_, entries, hentries, rfl⟩, ?_, ?_, by simp⟩
      · rw [withStringId, if_neg hid, hu64, Option.map_some]
      · refine List.nodup_cons.mpr ⟨fun hmem => ?_, hnodup⟩
        obtain ⟨entry, hentry, hsame⟩ := List.mem_map.mp hmem
        exact (hbound entry hentry).2 (List.mem_cons.mpr (.inl hsame))
      · refine List.forall_mem_cons.mpr ⟨⟨hnext, hnew⟩, fun entry hentry => ?_⟩
        exact ⟨(hbound entry hentry).1, fun hmem =>
          (hbound entry hentry).2 (List.mem_cons_of_mem _ hmem)⟩
    · rintro ⟨_, ⟨entry, hentry, entries, hentries, rfl⟩, hnodup, hbound, rfl⟩
      obtain ⟨⟨hnext, hnew⟩, hothers⟩ := List.forall_mem_cons.mp hbound
      obtain ⟨hfresh, hdistinct⟩ := List.nodup_cons.mp hnodup
      unfold withStringId at hentry
      split at hentry
      next => cases hentry
      next hid =>
        obtain ⟨u64Id, hu64, rfl⟩ := Option.map_eq_some_iff.mp hentry
        refine ⟨hid, u64Id, hu64, hnew, hnext, entries, hentries, hdistinct, fun other hother => ?_,
          by simp⟩
        refine ⟨(hothers other hother).1, fun hmem => ?_⟩
        rcases List.mem_cons.mp hmem with hsame | hmem
        · exact hfresh (List.mem_map.mpr ⟨other, hother, hsame⟩)
        · exact (hothers other hother).2 hmem

/-- The last loop: every slot is read, and none comes twice. -/
theorem verifySlots_eq_some {rows : List (String × Value)} {seen actual result : List Nat} :
    verifySlots indexLen rows seen actual = some result ↔
      ∃ entries, rows.mapM (fun row => slotEntry row.1 row.2) = some entries ∧
        (entries.map Prod.snd).Nodup ∧
        (∀ entry ∈ entries, entry.2 < indexLen ∧ entry.2 ∉ seen) ∧
        result = (entries.map Prod.fst).reverse ++ actual := by
  induction rows generalizing seen actual with
  | nil => simp [verifySlots, eq_comm]
  | cons row rows ih =>
    obtain ⟨key, value⟩ := row
    simp only [verifySlots, Option.bind_eq_bind, Option.bind_eq_some_iff,
      Option.guard_eq_some', exists_const, ih, List.mapM_cons, Option.pure_def,
      Option.some.injEq]
    constructor
    · rintro ⟨u64Id, hu64, slot, hslot, hlt, hnew, entries, hentries, hnodup, hbound, rfl⟩
      refine ⟨(u64Id, slot) :: entries, ⟨_, ?_, entries, hentries, rfl⟩, ?_, ?_, by simp⟩
      · simp [slotEntry, hu64, hslot]
      · refine List.nodup_cons.mpr ⟨fun hmem => ?_, hnodup⟩
        obtain ⟨entry, hentry, hsame⟩ := List.mem_map.mp hmem
        exact (hbound entry hentry).2 (List.mem_cons.mpr (.inl hsame))
      · refine List.forall_mem_cons.mpr ⟨⟨hlt, hnew⟩, fun entry hentry => ?_⟩
        exact ⟨(hbound entry hentry).1, fun hmem =>
          (hbound entry hentry).2 (List.mem_cons_of_mem _ hmem)⟩
    · rintro ⟨_, ⟨entry, hentry, entries, hentries, rfl⟩, hnodup, hbound, rfl⟩
      obtain ⟨⟨hlt, hnew⟩, hothers⟩ := List.forall_mem_cons.mp hbound
      obtain ⟨hfresh, hdistinct⟩ := List.nodup_cons.mp hnodup
      obtain ⟨hu64, hslot⟩ := slotEntry_eq_some hentry
      refine ⟨entry.1, hu64, entry.2, hslot, hlt, hnew, entries, hentries, hdistinct,
        fun other hother => ?_, by simp⟩
      refine ⟨(hothers other hother).1, fun hmem => ?_⟩
      rcases List.mem_cons.mp hmem with hsame | hmem
      · exact hfresh (List.mem_map.mpr ⟨other, hother, hsame⟩)
      · exact (hothers other hother).2 hmem

/-- The tables that the store builds of rows with distinct keys. -/
theorem perm_rows {K V : Type} [Ord K] [Std.TransOrd K] [Std.LawfulEqOrd K] {rows : List (K × V)}
    (h : (rows.map Prod.fst).Nodup) : ((∅ : Table K V).insertMany rows).toList.Perm rows := by
  refine (List.perm_ext_iff_of_nodup (Table.nodup_keys_toList _).of_map h.of_map).mpr ?_
  rintro ⟨key, value⟩
  rw [Std.ExtTreeMap.mem_toList_iff_getElem?_eq_some, Table.ofList_eq_some h]

/-- A map of strings has the keys of its object, none of them empty. -/
theorem stringMap_keys {V : Type} {read : Value → Option V} {table : Table String V}
    (h : parseEntries (withStringId read) object = some table) :
    ∃ rows, object.toList.mapM (fun row => withStringId read row.1 row.2) = some rows ∧
      table.toList.Perm rows ∧ table.keys = object.keys ∧ "" ∉ object := by
  obtain ⟨rows, hrows, rfl⟩ := Option.map_eq_some_iff.mp h
  have hrows : object.toList.mapM (fun row => withStringId read row.1 row.2) = some rows := hrows
  have hkeys : rows.map Prod.fst = object.toList.map Prod.fst :=
    Table.map_of_mapM hrows fun _ _ hout => withStringId_key hout
  have hnodup : (rows.map Prod.fst).Nodup := hkeys ▸ Table.nodup_keys_toList object
  have hperm := perm_rows hnodup
  refine ⟨rows, hrows, hperm, keys_eq_iff.mpr fun key => ?_, fun hempty => ?_⟩
  · rw [← Std.ExtTreeMap.mem_keys, ← Std.ExtTreeMap.mem_keys,
      ← Std.ExtTreeMap.map_fst_toList_eq_keys, ← Std.ExtTreeMap.map_fst_toList_eq_keys,
      (hperm.map Prod.fst).mem_iff, hkeys]
  · rw [← Std.ExtTreeMap.mem_keys, ← Std.ExtTreeMap.map_fst_toList_eq_keys] at hempty
    obtain ⟨⟨_, value⟩, hrow, rfl⟩ := List.mem_map.mp hempty
    obtain ⟨_, hentry⟩ := Option.isSome_iff_exists.mp (Table.isSome_of_mapM hrows _ hrow)
    simp [withStringId] at hentry

/-- No number is the key of two members. -/
def SpelledOnce (slots : Object) : Prop := (slots.keys.map parseU64).Nodup

instance (slots : Object) : Decidable (SpelledOnce slots) :=
  inferInstanceAs (Decidable (slots.keys.map parseU64).Nodup)

theorem spelledOnce_iff {entries : List (Nat × Nat)}
    (h : slots.toList.mapM (fun row => slotEntry row.1 row.2) = some entries) :
    SpelledOnce slots ↔ (entries.map Prod.fst).Nodup := by
  have hkeys : entries.map (fun entry => some entry.1) =
      slots.toList.map fun row => parseU64 row.1 :=
    Table.map_of_mapM h fun row entry hentry => (slotEntry_eq_some hentry).1.symm
  have hsome : (slots.keys.map parseU64) = (entries.map Prod.fst).map some := by
    rw [← Std.ExtTreeMap.map_fst_toList_eq_keys, List.map_map, List.map_map]
    exact hkeys.symm
  rw [SpelledOnce, hsome]
  exact List.nodup_map_iff (Option.some_injective _)

/-- Distinct elements that cover an equally long list leave it no repetition. -/
theorem nodup_of_covers {l r : List Nat} (hl : l.Nodup) (hsub : l ⊆ r)
    (hlength : r.length ≤ l.length) : r.Nodup :=
  ((List.Nodup.subperm hl hsub).perm_of_length_le hlength).nodup_iff.mp hl

theorem withStringId_isSome {V : Type} {read : Value → Option V} {key : String} {value : Value} :
    (withStringId read key value).isSome ↔ key ≠ "" ∧ (read value).isSome := by
  by_cases hkey : key = ""
  · simp [withStringId, hkey]
  · simp [withStringId, hkey]

/-- The checks of `verify` on maps whose members are read. -/
theorem verifyAdapterMaps_eq_some {strings documents metadata : Object} {ids : List (String × Nat)}
    {entries : List (Nat × Nat)}
    (hids : strings.toList.mapM (fun row => withStringId asU64 row.1 row.2) = some ids)
    (hentries : slots.toList.mapM (fun row => slotEntry row.1 row.2) = some entries)
    (hdocuments : ∀ row ∈ documents.toList, row.1 ≠ "" ∧ (asStr row.2).isSome)
    (hmetadata : ∀ row ∈ metadata.toList, row.1 ≠ "" ∧ row.2.asObject.isSome) :
    verifyAdapterMaps strings slots documents metadata nextU64Id indexLen = some () ↔
      documents.keys = strings.keys ∧ metadata.keys = strings.keys ∧
        (strings.size = indexLen ∧ slots.size = indexLen) ∧
        ((ids.map Prod.snd).Nodup ∧ ∀ entry ∈ ids, entry.2 < nextU64Id) ∧
        ((entries.map Prod.snd).Nodup ∧ ∀ entry ∈ entries, entry.2 < indexLen) ∧
        entries.map Prod.fst ⊆ ids.map Prod.snd ∧ ids.map Prod.snd ⊆ entries.map Prod.fst := by
  have hdocumentRows : documents.toList.all fun row => row.1 ≠ "" && (asStr row.2).isSome := by
    simpa [List.all_eq_true] using hdocuments
  have hmetadataRows : metadata.toList.all fun row => row.1 ≠ "" && row.2.asObject.isSome := by
    simpa [List.all_eq_true] using hmetadata
  simp only [verifyAdapterMaps, Option.bind_eq_bind, Option.bind_eq_some_iff,
    Option.guard_eq_some', exists_const, sameKeys_iff, verifyStringIds_eq_some,
    verifySlots_eq_some, hids, hentries, hdocumentRows, hmetadataRows, Option.some.injEq,
    List.not_mem_nil, not_false_eq_true, and_true, List.append_nil]
  refine and_congr_right fun _ => and_congr_right fun _ => and_congr_right fun _ => ?_
  constructor
  · rintro ⟨_, ⟨_, rfl, hdistinct, hnext, rfl⟩, -, -, _, ⟨_, rfl, hslots, hbound, rfl⟩, hsame⟩
    simp only [List.reverse_subset, List.subset_reverse] at hsame
    exact ⟨⟨hdistinct, hnext⟩, ⟨hslots, hbound⟩, hsame⟩
  · rintro ⟨⟨hdistinct, hnext⟩, ⟨hslots, hbound⟩, hsame⟩
    refine ⟨_, ⟨_, rfl, hdistinct, hnext, rfl⟩, trivial, trivial, _,
      ⟨_, rfl, hslots, hbound, rfl⟩, ?_⟩
    simpa only [List.reverse_subset, List.subset_reverse] using hsame

/-- What the maps must be for the rows of an index. -/
structure MapsFit (parsed : ParsedPayloads) (indexLen : Nat) : Prop where
  maps : parsed.ValidMaps
  strings : parsed.stringToU64.size = indexLen
  slots : parsed.u64ToSlot.size = indexLen
  bound : ∀ row ∈ parsed.u64ToSlot.toList, row.2 < indexLen

/-- The checks of `verify` on maps that the parser of the store reads. -/
theorem verifyAdapterMaps_iff {strings documents metadata : Object} {parsed : ParsedPayloads}
    (hstrings : parseStringToU64 strings = some parsed.stringToU64)
    (hslots : parseU64ToSlot slots = some parsed.u64ToSlot)
    (hdocuments : parseDocuments documents = some parsed.documents)
    (hmetadata : parseMetadata metadata = some parsed.metadata) :
    verifyAdapterMaps strings slots documents metadata parsed.nextU64Id indexLen = some () ↔
      SpelledOnce slots ∧ MapsFit parsed indexLen := by
  obtain ⟨ids, hids, hidsPerm, hstringKeys, hnonempty⟩ := stringMap_keys hstrings
  obtain ⟨_, hdocumentRows, -, hdocumentKeys, -⟩ := stringMap_keys hdocuments
  obtain ⟨_, hmetadataRows, -, hmetadataKeys, -⟩ := stringMap_keys hmetadata
  obtain ⟨entries, hentries, htable⟩ := Option.map_eq_some_iff.mp hslots
  have hentries : slots.toList.mapM (fun row => slotEntry row.1 row.2) = some entries := hentries
  have hidsU64 : parsed.u64Ids.Perm (ids.map Prod.snd) := hidsPerm.map Prod.snd
  have hidsLength : ids.length = strings.size := by
    rw [← hidsPerm.length_eq, Std.ExtTreeMap.length_toList, ← Std.ExtTreeMap.length_keys,
      hstringKeys, Std.ExtTreeMap.length_keys]
  have hentriesLength : entries.length = slots.size := by
    have := congrArg List.length (Table.mapM_eq_some.mp hentries)
    simpa using this.symm
  rw [verifyAdapterMaps_eq_some hids hentries
    (fun row hrow => withStringId_isSome.mp (Table.isSome_of_mapM hdocumentRows row hrow))
    (fun row hrow => by
      have := withStringId_isSome.mp (Table.isSome_of_mapM hmetadataRows row hrow)
      exact ⟨this.1, by simpa using this.2⟩),
    spelledOnce_iff hentries]
  constructor
  · rintro ⟨hsameDocuments, hsameMetadata, ⟨hsize, hslotSize⟩, ⟨hdistinct, hnext⟩,
      ⟨hslotDistinct, hbound⟩, hsub, hback⟩
    have honce : (entries.map Prod.fst).Nodup := nodup_of_covers hdistinct hback (by
      rw [List.length_map, List.length_map, hentriesLength, hslotSize, hidsLength, hsize])
    have hperm : parsed.u64ToSlot.toList.Perm entries := htable ▸ perm_rows honce
    have hslotKeys : parsed.u64ToSlot.keys.Perm (entries.map Prod.fst) := by
      rw [← Std.ExtTreeMap.map_fst_toList_eq_keys]
      exact hperm.map Prod.fst
    refine ⟨honce, ⟨?_, ?_, ?_, ?_, ?_, ⟨?_, ?_⟩, ?_⟩, ?_, ?_, ?_⟩
    · rw [hdocumentKeys, hsameDocuments, hstringKeys]
    · rw [hmetadataKeys, hsameMetadata, hstringKeys]
    · rwa [← Std.ExtTreeMap.mem_keys, hstringKeys, Std.ExtTreeMap.mem_keys]
    · exact hidsU64.nodup_iff.mpr hdistinct
    · intro id hid
      obtain ⟨entry, hentry, rfl⟩ := List.mem_map.mp (hidsU64.mem_iff.mp hid)
      exact hnext entry hentry
    · exact fun id hid => hidsU64.mem_iff.mpr (hsub (hslotKeys.mem_iff.mp hid))
    · exact fun id hid => Std.ExtTreeMap.mem_keys.mp
        (hslotKeys.mem_iff.mpr (hback (hidsU64.mem_iff.mp hid)))
    · exact (hperm.map Prod.snd).nodup_iff.mpr hslotDistinct
    · rw [← Std.ExtTreeMap.length_toList, hidsPerm.length_eq, hidsLength, hsize]
    · rw [← Std.ExtTreeMap.length_toList, hperm.length_eq, hentriesLength, hslotSize]
    · exact fun row hrow => hbound row (hperm.mem_iff.mp hrow)
  · rintro ⟨honce, hfit⟩
    have hperm : parsed.u64ToSlot.toList.Perm entries := htable ▸ perm_rows honce
    have hslotKeys : parsed.u64ToSlot.keys.Perm (entries.map Prod.fst) := by
      rw [← Std.ExtTreeMap.map_fst_toList_eq_keys]
      exact hperm.map Prod.fst
    refine ⟨?_, ?_, ⟨?_, ?_⟩, ⟨?_, ?_⟩, ⟨?_, ?_⟩, ?_, ?_⟩
    · rw [← hdocumentKeys, hfit.maps.documents, hstringKeys]
    · rw [← hmetadataKeys, hfit.maps.metadata, hstringKeys]
    · rw [← hfit.strings, ← hidsLength, ← Std.ExtTreeMap.length_toList, hidsPerm.length_eq]
    · rw [← hfit.slots, ← hentriesLength, ← Std.ExtTreeMap.length_toList, hperm.length_eq]
    · exact hidsU64.nodup_iff.mp hfit.maps.distinct
    · exact fun entry hentry => hfit.maps.allocated _
        (hidsU64.mem_iff.mpr (List.mem_map_of_mem hentry))
    · exact (hperm.map Prod.snd).nodup_iff.mp hfit.maps.slots
    · exact fun entry hentry => hfit.bound entry (hperm.mem_iff.mpr hentry)
    · exact fun id hid => hidsU64.mem_iff.mp
        (hfit.maps.slotKeys.1 id (hslotKeys.mem_iff.mpr hid))
    · exact fun id hid => hslotKeys.mem_iff.mp
        (Std.ExtTreeMap.mem_keys.mpr (hfit.maps.slotKeys.2 id (hidsU64.mem_iff.mpr hid)))

/-- Maps that `verify` accepts are read by the parser of the store. -/
theorem parses_of_verifyAdapterMaps {strings documents metadata : Object}
    (h : verifyAdapterMaps strings slots documents metadata nextU64Id indexLen = some ()) :
    (parseStringToU64 strings).isSome ∧ (parseU64ToSlot slots).isSome ∧
      (parseDocuments documents).isSome ∧ (parseMetadata metadata).isSome := by
  have hparses : ∀ {K V : Type} [Ord K] [Std.TransOrd K] {entry : String → Value → Option (K × V)}
      {object : Object}, (∃ rows, object.toList.mapM (fun row => entry row.1 row.2) = some rows) →
        (parseEntries entry object).isSome := by
    rintro K V _ _ entry object ⟨rows, hrows⟩
    rw [parseEntries, show object.toList.mapM (fun row => entry row.1 row.2) = _ from hrows]
    rfl
  simp only [verifyAdapterMaps, Option.bind_eq_bind, Option.bind_eq_some_iff,
    Option.guard_eq_some', exists_const, verifyStringIds_eq_some, verifySlots_eq_some,
    List.all_eq_true, Bool.and_eq_true, decide_eq_true_eq] at h
  obtain ⟨-, -, -, _, ⟨ids, hids, -⟩, hdocuments, hmetadata, _, ⟨entries, hentries, -⟩, -⟩ := h
  refine ⟨hparses ⟨ids, hids⟩, hparses ⟨entries, hentries⟩,
    hparses ⟨_, Table.mapM_of_isSome fun row hrow =>
      withStringId_isSome.mpr (hdocuments row hrow)⟩,
    hparses ⟨_, Table.mapM_of_isSome fun row hrow => withStringId_isSome.mpr ?_⟩⟩
  have hobject := hmetadata row hrow
  exact ⟨hobject.1, by simp [hobject.2]⟩

end Maps

/-! ## The index -/

section Index

variable {disk : Disk}

theorem noVectorArtifacts_iff {indexPath : String} :
    noVectorArtifacts disk indexPath ↔
      Store.noVectorArtifacts disk indexPath none ∧ disk.vectors = none := by
  cases hvectors : disk.vectors with
  | none => simp [noVectorArtifacts, Store.noVectorArtifacts, hvectors]
  | some entries => simp [noVectorArtifacts, hvectors]

theorem optionalDim_eq_some {adapter : Object} {dim : Option Nat} :
    optionalDim adapter = some dim ↔ Store.optionalDim adapter = some dim ∧
      ∀ d, dim = some d → 2 ≤ d ∧ d ≤ 65535 := by
  have hmissing : none = dim ↔ none = dim ∧ ∀ d, dim = some d → 2 ≤ d ∧ d ≤ 65535 := by
    refine ⟨?_, And.left⟩
    rintro rfl
    exact ⟨rfl, fun _ h => by cases h⟩
  cases hdim : adapter["dim"]? with
  | none =>
    simp only [optionalDim, Store.optionalDim, hdim, Option.some.injEq]
    exact hmissing
  | some value =>
    by_cases hnull : value = .null
    · simp only [optionalDim, Store.optionalDim, hdim, hnull, Option.some.injEq]
      exact hmissing
    · have hread : optionalDim adapter =
          ((asU64 value).filter fun dim => 2 ≤ dim ∧ dim ≤ 65535).map some := by
        unfold optionalDim
        rw [hdim]
        cases value <;> first | rfl | exact absurd rfl hnull
      have hstore : Store.optionalDim adapter =
          ((asU64 value).filter fun dim => 0 < dim).map some := by
        unfold Store.optionalDim
        rw [hdim]
        cases value <;> first | rfl | exact absurd rfl hnull
      rw [hread, hstore]
      simp only [Option.map_eq_some_iff, Option.filter_eq_some_iff, decide_eq_true_eq]
      constructor
      · rintro ⟨d, ⟨hd, hrange⟩, rfl⟩
        refine ⟨⟨d, ⟨hd, by omega⟩, rfl⟩, fun _ h => ?_⟩
        cases h
        exact hrange
      · rintro ⟨⟨d, ⟨hd, -⟩, rfl⟩, hrange⟩
        exact ⟨d, ⟨hd, hrange d rfl⟩, rfl⟩

/-- A bundle is at a path that has a generation. -/
theorem generationId_isSome {indexPath : String} {bundle : Bundle}
    (h : disk.bundle indexPath = some bundle) :
    ∃ id, generationIdFromIndexPath indexPath = some id := by
  obtain ⟨location, hlocation, -⟩ := Option.bind_eq_some_iff.mp h
  unfold generationIdFromIndexPath
  rw [hlocation]
  cases location with
  | index => exact ⟨1, rfl⟩
  | vectors name =>
    unfold locate at hlocation
    split at hlocation
    next => cases hlocation
    next =>
      split at hlocation
      next => cases hlocation
      next =>
        split at hlocation
        next =>
          obtain ⟨⟨-, hid⟩, hname⟩ := Option.ite_none_right_eq_some.mp hlocation
          cases hname
          exact Option.isSome_iff_exists.mp hid
        next => cases hlocation

variable {parsed : ParsedPayloads}

theorem eq_empty_of_size {V : Type} {K : Type} [Ord K] [Std.TransOrd K] {table : Table K V}
    (h : table.size = 0) : table = ∅ :=
  Std.ExtTreeMap.eq_empty_iff_size_eq_zero.mpr h

/-- The store accepts a generation when the maps fit the index that `verify` finds. -/
theorem accepts_iff (hvalid : parsed.ValidMaps) :
    (∃ generation, activeGenerationCheckpoint disk parsed none = some generation ∧
      parsed.validateAgainstGeneration generation) ↔
    (parsed.emptyLazy → parsed.dim = none ∧
      Store.noVectorArtifacts disk parsed.indexPath none) ∧
    ∃ indexLen, verifyIndex disk parsed.emptyLazy parsed.indexPath parsed.bits parsed.dim =
      some indexLen ∧ MapsFit parsed indexLen := by
  cases hlazy : parsed.emptyLazy with
  | true =>
    constructor
    · rintro ⟨generation, hcheckpoint, hvalidated⟩
      obtain ⟨hbare, -, -, hempty, -⟩ := checkpoint_lazy hcheckpoint hlazy
      simp only [ParsedPayloads.validateAgainstGeneration, hlazy, hempty, decide_true,
        Bool.true_and, if_true, Bool.and_eq_true, decide_eq_true_eq] at hvalidated
      obtain ⟨⟨⟨⟨hdim, hstrings⟩, hslots⟩, -⟩, -⟩ := hvalidated
      refine ⟨fun _ => ⟨hdim, hbare⟩, 0, rfl, hvalid, ?_, ?_, ?_⟩
      · rw [hstrings]
        exact Std.ExtTreeMap.size_empty
      · rw [hslots]
        exact Std.ExtTreeMap.size_empty
      · rw [hslots]
        intro row hrow
        have hrow := Std.ExtTreeMap.mem_toList_iff_getElem?_eq_some.mp hrow
        rw [Std.ExtTreeMap.getElem?_empty] at hrow
        cases hrow
    · rintro ⟨hbare, indexLen, hindex, hfit⟩
      obtain ⟨hdim, hbare⟩ := hbare rfl
      obtain rfl : 0 = indexLen := Option.some.inj hindex
      have hstrings := eq_empty_of_size hfit.strings
      have hnone : ∀ {V : Type} {table : Table String V},
          table.keys = parsed.stringToU64.keys → table = ∅ := by
        intro V table hkeys
        refine eq_empty_of_size ?_
        rw [← Std.ExtTreeMap.length_keys, hkeys, Std.ExtTreeMap.length_keys, hfit.strings]
      obtain ⟨generation, hcheckpoint, hempty⟩ : ∃ generation,
          activeGenerationCheckpoint disk parsed none = some generation ∧
            generation.emptyLazy = true := by
        unfold activeGenerationCheckpoint
        rw [if_pos hlazy, guard, if_pos hbare]
        exact ⟨_, rfl, rfl⟩
      refine ⟨generation, hcheckpoint, ?_⟩
      simp [ParsedPayloads.validateAgainstGeneration, hlazy, hempty, hdim, hstrings,
        eq_empty_of_size hfit.slots, hnone hvalid.documents, hnone hvalid.metadata]
  | false =>
    constructor
    · rintro ⟨generation, hcheckpoint, hvalidated⟩
      unfold activeGenerationCheckpoint at hcheckpoint
      rw [hlazy, if_neg Bool.false_ne_true] at hcheckpoint
      obtain ⟨bundle, hbundle, hcheckpoint⟩ := Option.bind_eq_some_iff.mp hcheckpoint
      obtain ⟨id, -, hcheckpoint⟩ := Option.bind_eq_some_iff.mp hcheckpoint
      obtain rfl := Option.some.inj hcheckpoint
      simp only [ParsedPayloads.validateAgainstGeneration, hlazy, decide_true, Bool.true_and,
        Bool.false_eq_true, if_false, Bool.and_eq_true, decide_eq_true_eq,
        List.all_eq_true] at hvalidated
      obtain ⟨⟨⟨⟨hbits, hdim⟩, hstrings⟩, hslots⟩, hbound⟩ := hvalidated
      refine ⟨fun h => absurd h Bool.false_ne_true, bundle.vectorCount, ?_, hvalid, hstrings,
        hslots, hbound⟩
      simp [verifyIndex, hbundle, hbits, hdim]
    · rintro ⟨-, indexLen, hindex, hfit⟩
      simp only [verifyIndex, Bool.false_eq_true, if_false, Option.bind_eq_bind,
        Option.bind_eq_some_iff, Option.guard_eq_some', exists_const, Option.pure_def,
        Option.some.injEq] at hindex
      obtain ⟨bundle, hbundle, hbits, hdim, rfl⟩ := hindex
      obtain ⟨id, hid⟩ := generationId_isSome hbundle
      obtain ⟨generation, hcheckpoint, hempty, hpath, hsameBits, hsameDim, hcount⟩ :
          ∃ generation, activeGenerationCheckpoint disk parsed none = some generation ∧
            generation.emptyLazy = false ∧ generation.path = parsed.indexPath ∧
            generation.bits = bundle.bits ∧ generation.dim = bundle.dim ∧
            generation.vectorCount = bundle.vectorCount := by
        unfold activeGenerationCheckpoint
        rw [hlazy, if_neg Bool.false_ne_true, hbundle, hid]
        exact ⟨_, rfl, rfl, rfl, rfl, rfl, rfl⟩
      refine ⟨generation, hcheckpoint, ?_⟩
      simp only [ParsedPayloads.validateAgainstGeneration, hlazy, hempty, hpath, hsameBits,
        hsameDim, hcount, decide_true, Bool.true_and, Bool.false_eq_true, if_false,
        Bool.and_eq_true, decide_eq_true_eq, List.all_eq_true]
      exact ⟨⟨⟨⟨hbits.symm, hdim⟩, hfit.strings⟩, hfit.slots⟩, hfit.bound⟩

end Index

/-! ## Both validators -/

section Both

variable {codec : JsonCodec Text} {directory : LegacyDirectory Text} {env : Env}

theorem parseObjects_eq_some {adapter idMap documents metadata : Object}
    {parsed : ParsedPayloads} :
    ParsedPayloads.parseObjects adapter idMap documents metadata = some parsed ↔
      (requireExactKeys adapter adapterKeys ∧
        requireExactKeys idMap
          ["schema_version", "next_u64_id", "string_to_u64", "u64_to_slot"] ∧
        requireExactKeys documents ["schema_version", "documents"] ∧
        requireExactKeys metadata ["schema_version", "metadata"]) ∧
      (requiredString adapter "schema_version" = some "ordinaldb.adapter.v1" ∧
        requiredString idMap "schema_version" = some "ordinaldb.adapter.id_map.v1" ∧
        requiredString documents "schema_version" = some "ordinaldb.adapter.documents.v1" ∧
        requiredString metadata "schema_version" = some "ordinaldb.adapter.metadata.v1") ∧
      (requiredString adapter "adapter" = some parsed.adapterName ∧
        requiredBits adapter = some parsed.bits ∧
        Store.optionalDim adapter = some parsed.dim ∧
        requiredBool adapter "empty_lazy" = some parsed.emptyLazy ∧
        (requiredString adapter "index_path").filter validateIndexPath =
          some parsed.indexPath) ∧
      ((requiredObject idMap "string_to_u64").bind parseStringToU64 =
          some parsed.stringToU64 ∧
        (requiredObject idMap "u64_to_slot").bind parseU64ToSlot = some parsed.u64ToSlot ∧
        requiredU64 idMap "next_u64_id" = some parsed.nextU64Id ∧
        (requiredObject documents "documents").bind parseDocuments = some parsed.documents ∧
        (requiredObject metadata "metadata").bind parseMetadata = some parsed.metadata) ∧
      parsed.ValidMaps := by
  constructor
  · intro h
    simp only [ParsedPayloads.parseObjects, Option.bind_eq_bind, Option.bind_eq_some_iff,
      Option.guard_eq_some', Option.pure_def, Option.some.injEq, exists_const] at h
    obtain ⟨h1, h2, h3, h4, h5, h6, h7, h8, _, hname, _, hbits, _, hdim, _, hlazy, _, hpath, _,
      hstrings, _, hslots, _, hnext, _, hdocuments, _, hmetadata, hvalid, rfl⟩ := h
    exact ⟨⟨h1, h2, h3, h4⟩, ⟨h5, h6, h7, h8⟩, ⟨hname, hbits, hdim, hlazy, hpath⟩,
      ⟨Option.bind_eq_some_iff.mpr hstrings, Option.bind_eq_some_iff.mpr hslots, hnext,
        Option.bind_eq_some_iff.mpr hdocuments, Option.bind_eq_some_iff.mpr hmetadata⟩, hvalid⟩
  · rintro ⟨⟨h1, h2, h3, h4⟩, ⟨h5, h6, h7, h8⟩, ⟨hname, hbits, hdim, hlazy, hpath⟩,
      ⟨hstrings, hslots, hnext, hdocuments, hmetadata⟩, hvalid⟩
    have h1 : requireExactKeys adapter ["schema_version", "adapter", "bits", "dim", "empty_lazy",
      "index_path", "sidecars"] := h1
    simp [ParsedPayloads.parseObjects, h1, h2, h3, h4, h5, h6, h7, h8, hname, hbits, hdim, hlazy,
      hpath, hstrings, hslots, hnext, hdocuments, hmetadata, hvalid]

/-- The objects of the four files. -/
structure Reads (codec : JsonCodec Text) (directory : LegacyDirectory Text)
    (adapter idMap documents metadata : Object) : Prop where
  adapter : directory.adapter.bind (readObject codec) = some adapter
  idMap : directory.idMap.bind (fun file => readObject codec file.text) = some idMap
  documents : directory.documents.bind (fun file => readObject codec file.text) = some documents
  metadata : directory.metadata.bind (fun file => readObject codec file.text) = some metadata

theorem parse_iff_reads {parsed : ParsedPayloads} :
    (∃ payloads, directory.payloads = some payloads ∧
      ParsedPayloads.parse codec payloads = some parsed) ↔
    ∃ adapter idMap documents metadata, Reads codec directory adapter idMap documents metadata ∧
      ParsedPayloads.parseObjects adapter idMap documents metadata = some parsed := by
  constructor
  · rintro ⟨payloads, hpayloads, hparse⟩
    simp only [LegacyDirectory.payloads, Option.bind_eq_bind, Option.bind_eq_some_iff,
      Option.pure_def, Option.some.injEq] at hpayloads
    obtain ⟨_, hadapter, _, hidMap, _, hdocuments, _, hmetadata, rfl⟩ := hpayloads
    obtain ⟨adapter, idMap, documents, metadata, h1, h2, h3, h4, hobjects⟩ :=
      ParsedPayloads.parse_eq_some.mp hparse
    exact ⟨adapter, idMap, documents, metadata,
      ⟨Option.bind_eq_some_iff.mpr ⟨_, hadapter, h1⟩,
        Option.bind_eq_some_iff.mpr ⟨_, hidMap, h2⟩,
        Option.bind_eq_some_iff.mpr ⟨_, hdocuments, h3⟩,
        Option.bind_eq_some_iff.mpr ⟨_, hmetadata, h4⟩⟩, hobjects⟩
  · rintro ⟨adapter, idMap, documents, metadata, hreads, hobjects⟩
    obtain ⟨_, hadapter, h1⟩ := Option.bind_eq_some_iff.mp hreads.adapter
    obtain ⟨_, hidMap, h2⟩ := Option.bind_eq_some_iff.mp hreads.idMap
    obtain ⟨_, hdocuments, h3⟩ := Option.bind_eq_some_iff.mp hreads.documents
    obtain ⟨_, hmetadata, h4⟩ := Option.bind_eq_some_iff.mp hreads.metadata
    refine ⟨_, by rw [LegacyDirectory.payloads, hadapter, hidMap, hdocuments, hmetadata]; rfl, ?_⟩
    exact ParsedPayloads.parse_eq_some.mpr ⟨adapter, idMap, documents, metadata, h1, h2, h3, h4,
      hobjects⟩

/-- `import` in the terms of `verify`. -/
theorem import_isSome : (importLegacyAdapter codec env directory).1.isSome ↔
    ∃ adapter idMap documents metadata parsed,
      Reads codec directory adapter idMap documents metadata ∧
      ParsedPayloads.parseObjects adapter idMap documents metadata = some parsed ∧
      (parsed.emptyLazy → parsed.dim = none ∧
        Store.noVectorArtifacts env.disk parsed.indexPath none) ∧
      ∃ indexLen, verifyIndex env.disk parsed.emptyLazy parsed.indexPath parsed.bits parsed.dim =
        some indexLen ∧ MapsFit parsed indexLen := by
  have hstore : (importLegacyAdapter codec env directory).1.isSome ↔
      ∃ payloads, directory.payloads = some payloads ∧ ∃ parsed generation,
        ParsedPayloads.parse codec payloads = some parsed ∧
        activeGenerationCheckpoint env.disk parsed none = some generation ∧
        parsed.validateAgainstGeneration generation := by
    unfold importLegacyAdapter
    cases directory.payloads with
    | none => simp
    | some payloads => simp [snapshot_isSome]
  rw [hstore]
  constructor
  · rintro ⟨payloads, hpayloads, parsed, generation, hparse, haccepts⟩
    obtain ⟨adapter, idMap, documents, metadata, hreads, hobjects⟩ :=
      parse_iff_reads.mp ⟨payloads, hpayloads, hparse⟩
    have hvalid := (ParsedPayloads.parseObjects_metadata hobjects).1
    exact ⟨adapter, idMap, documents, metadata, parsed, hreads, hobjects,
      (accepts_iff hvalid).mp ⟨generation, haccepts⟩⟩
  · rintro ⟨adapter, idMap, documents, metadata, parsed, hreads, hobjects, haccepts⟩
    have hvalid := (ParsedPayloads.parseObjects_metadata hobjects).1
    obtain ⟨generation, haccepts⟩ := (accepts_iff hvalid).mpr haccepts
    obtain ⟨payloads, hpayloads, hparse⟩ :=
      parse_iff_reads.mpr ⟨adapter, idMap, documents, metadata, hreads, hobjects⟩
    exact ⟨payloads, hpayloads, parsed, generation, hparse, haccepts⟩

/-- What `verify` asks for and `import` does not. -/
structure Stricter (directory : LegacyDirectory Text) (adapter idMap : Object) (disk : Disk) :
    Prop where
  /-- The descriptors of the sidecars, which `import` does not read, are those of the files. -/
  sidecars : ∃ sidecars, requiredObject adapter "sidecars" = some sidecars ∧ sidecars.size = 3 ∧
    ∀ entry ∈ directory.sidecars, verifySidecarOf sidecars entry = some ()
  dim : ∀ dim, Store.optionalDim adapter = some (some dim) → 2 ≤ dim ∧ dim ≤ 65535
  /-- The parser of the store keeps one of several spellings of a number. -/
  spelledOnce : ∀ slots, requiredObject idMap "u64_to_slot" = some slots → SpelledOnce slots
  /-- An empty adapter has no `vectors/`, not even with debris alone. -/
  bare : requiredBool adapter "empty_lazy" = some true → disk.vectors = none
  scanned : (scanGenerationDirectory disk).isSome

theorem sidecars_of_mapM {sidecars : Object} :
    (∃ units, directory.sidecars.mapM (verifySidecarOf sidecars) = some units) ↔
      ∀ entry ∈ directory.sidecars, verifySidecarOf sidecars entry = some () := by
  constructor
  · rintro ⟨units, hunits⟩ entry hentry
    obtain ⟨⟨⟩, hentry⟩ :=
      Option.isSome_iff_exists.mp (Table.isSome_of_mapM hunits entry hentry)
    exact hentry
  · exact fun h => ⟨_, Table.mapM_of_forall h⟩

theorem markerDescriptors {sidecars : Object}
    (h : ∀ entry ∈ directory.sidecars, verifySidecarOf sidecars entry = some ()) :
    ∃ descriptors, directory.sidecars.mapM (fun entry =>
      sidecars[entry.1]?.bind validateSidecarDescriptor) = some descriptors := by
  refine ⟨_, Table.mapM_of_isSome fun entry hentry => ?_⟩
  obtain ⟨expected, hexpected, hsidecar⟩ := Option.bind_eq_some_iff.mp (h entry hentry)
  obtain ⟨descriptor, hdescriptor, -⟩ := Option.bind_eq_some_iff.mp hsidecar
  rw [hexpected, Option.bind_some, hdescriptor]
  rfl

theorem verifyHeader_eq_some {adapter : Object} {header : AdapterHeader} :
    verifyHeader directory adapter = some header ↔
      requireExactKeys adapter adapterKeys ∧
      requiredString adapter "schema_version" = some "ordinaldb.adapter.v1" ∧
      (requiredBits adapter = some header.bits ∧ optionalDim adapter = some header.dim ∧
        requiredBool adapter "empty_lazy" = some header.emptyLazy ∧
        (requiredString adapter "index_path").filter validateIndexPath =
          some header.indexPath) ∧
      ∃ sidecars, requiredObject adapter "sidecars" = some sidecars ∧ sidecars.size = 3 ∧
        ∀ entry ∈ directory.sidecars, verifySidecarOf sidecars entry = some () := by
  rw [← requireExactObject_iff (by decide)]
  simp only [verifyHeader, Option.bind_eq_bind, Option.bind_eq_some_iff, Option.guard_eq_some',
    exists_const, requireSchema, decide_eq_true_eq, Option.pure_def, Option.some.injEq]
  constructor
  · rintro ⟨hkeys, hschema, _, hbits, _, hdim, _, hlazy, _, hpath, sidecars, hsidecars, units,
      hunits, hsize, rfl⟩
    exact ⟨hkeys, hschema, ⟨hbits, hdim, hlazy, hpath⟩, sidecars, hsidecars, hsize,
      sidecars_of_mapM.mp ⟨units, hunits⟩⟩
  · rintro ⟨hkeys, hschema, ⟨hbits, hdim, hlazy, hpath⟩, sidecars, hsidecars, hsize, hfiles⟩
    obtain ⟨units, hunits⟩ := sidecars_of_mapM.mpr hfiles
    exact ⟨hkeys, hschema, _, hbits, _, hdim, _, hlazy, _, hpath, sidecars, hsidecars, units,
      hunits, hsize, rfl⟩

theorem readMaps_eq_some {idMap documents metadata : Object} {maps : AdapterMaps} :
    readMaps idMap documents metadata = some maps ↔
      (requireExactKeys idMap
          ["schema_version", "next_u64_id", "string_to_u64", "u64_to_slot"] ∧
        requireExactKeys documents ["schema_version", "documents"] ∧
        requireExactKeys metadata ["schema_version", "metadata"]) ∧
      (requiredString idMap "schema_version" = some "ordinaldb.adapter.id_map.v1" ∧
        requiredString documents "schema_version" = some "ordinaldb.adapter.documents.v1" ∧
        requiredString metadata "schema_version" = some "ordinaldb.adapter.metadata.v1") ∧
      requiredObject idMap "string_to_u64" = some maps.stringToU64 ∧
      requiredObject idMap "u64_to_slot" = some maps.u64ToSlot ∧
      requiredU64 idMap "next_u64_id" = some maps.nextU64Id ∧
      requiredObject documents "documents" = some maps.documents ∧
      requiredObject metadata "metadata" = some maps.metadata := by
  rw [← requireExactObject_iff (by decide), ← requireExactObject_iff (by decide),
    ← requireExactObject_iff (by decide)]
  simp only [readMaps, Option.bind_eq_bind, Option.bind_eq_some_iff, Option.guard_eq_some',
    exists_const, requireSchema, decide_eq_true_eq, Option.pure_def, Option.some.injEq]
  constructor
  · rintro ⟨h1, h2, h3, h4, h5, h6, _, hstrings, _, hslots, _, hnext, _, hdocuments, _, hmetadata,
      rfl⟩
    exact ⟨⟨h1, h2, h3⟩, ⟨h4, h5, h6⟩, hstrings, hslots, hnext, hdocuments, hmetadata⟩
  · rintro ⟨⟨h1, h2, h3⟩, ⟨h4, h5, h6⟩, hstrings, hslots, hnext, hdocuments, hmetadata⟩
    exact ⟨h1, h2, h3, h4, h5, h6, _, hstrings, _, hslots, _, hnext, _, hdocuments, _, hmetadata,
      rfl⟩

/-- The marker is checked again by what follows, but for the adapter's name. -/
theorem marker_eq_some {adapter : Object} {header : AdapterHeader}
    (h : verifyHeader directory adapter = some header) :
    requireLegacyAdapterMarkerShape directory adapter = some () ↔
      ∃ name, requiredString adapter "adapter" = some name := by
  obtain ⟨hkeys, hschema, ⟨hbits, hdim, hlazy, hpath⟩, sidecars, hsidecars, hsize, hfiles⟩ :=
    verifyHeader_eq_some.mp h
  obtain ⟨descriptors, hdescriptors⟩ := markerDescriptors hfiles
  have hexact := (requireExactObject_iff (by decide)).mpr hkeys
  simp only [requireLegacyAdapterMarkerShape, Option.bind_eq_bind, Option.bind_eq_some_iff,
    Option.guard_eq_some', exists_const, requireSchema, decide_eq_true_eq]
  constructor
  · rintro ⟨-, -, name, hname, -⟩
    exact ⟨name, hname⟩
  · rintro ⟨name, hname⟩
    exact ⟨hexact, hschema, name, hname, _, hbits, _, hdim, _, hlazy, _, hpath, sidecars,
      hsidecars, descriptors, hdescriptors, hsize⟩

theorem summary_isSome {disk : Disk} {active : Option String} :
    (∃ summary, generationDirectorySummary disk active = some summary) ↔
      (scanGenerationDirectory disk).isSome := by
  unfold generationDirectorySummary
  cases scanGenerationDirectory disk <;> simp

theorem verifyMarked_eq_some {disk : Disk} :
    verifyMarked codec directory disk = some () ↔
      ∃ adapter idMap documents metadata name header maps indexLen,
        Reads codec directory adapter idMap documents metadata ∧
        requiredString adapter "adapter" = some name ∧
        verifyHeader directory adapter = some header ∧
        readMaps idMap documents metadata = some maps ∧
        (header.emptyLazy → header.dim = none ∧ noVectorArtifacts disk header.indexPath) ∧
        (scanGenerationDirectory disk).isSome ∧
        verifyIndex disk header.emptyLazy header.indexPath header.bits header.dim =
          some indexLen ∧
        verifyAdapterMaps maps.stringToU64 maps.u64ToSlot maps.documents maps.metadata
          maps.nextU64Id indexLen = some () := by
  constructor
  · intro h
    obtain ⟨adapter, hadapter, h⟩ := Option.bind_eq_some_iff.mp h
    obtain ⟨⟨⟩, hmarker, h⟩ := Option.bind_eq_some_iff.mp h
    obtain ⟨_, hsame, h⟩ := Option.bind_eq_some_iff.mp h
    obtain rfl := Option.some.inj (hadapter.symm.trans hsame)
    obtain ⟨header, hheader, h⟩ := Option.bind_eq_some_iff.mp h
    obtain ⟨idMap, hidMap, h⟩ := Option.bind_eq_some_iff.mp h
    obtain ⟨documents, hdocuments, h⟩ := Option.bind_eq_some_iff.mp h
    obtain ⟨metadata, hmetadata, h⟩ := Option.bind_eq_some_iff.mp h
    obtain ⟨maps, hmaps, h⟩ := Option.bind_eq_some_iff.mp h
    obtain ⟨⟨⟩, hlazy, h⟩ := Option.bind_eq_some_iff.mp h
    obtain ⟨_, hsummary, h⟩ := Option.bind_eq_some_iff.mp h
    obtain ⟨indexLen, hindex, h⟩ := Option.bind_eq_some_iff.mp h
    obtain ⟨name, hname⟩ := (marker_eq_some hheader).mp hmarker
    exact ⟨adapter, idMap, documents, metadata, name, header, maps, indexLen,
      ⟨hadapter, hidMap, hdocuments, hmetadata⟩, hname, hheader, hmaps,
      by simpa using hlazy, summary_isSome.mp ⟨_, hsummary⟩, hindex, h⟩
  · rintro ⟨adapter, idMap, documents, metadata, name, header, maps, indexLen, hreads, hname,
      hheader, hmaps, hlazy, hscan, hindex, h⟩
    obtain ⟨_, hsummary⟩ := summary_isSome.mpr hscan
    refine Option.bind_eq_some_iff.mpr ⟨adapter, hreads.adapter, ?_⟩
    refine Option.bind_eq_some_iff.mpr ⟨(), (marker_eq_some hheader).mpr ⟨name, hname⟩, ?_⟩
    refine Option.bind_eq_some_iff.mpr ⟨adapter, hreads.adapter, ?_⟩
    refine Option.bind_eq_some_iff.mpr ⟨header, hheader, ?_⟩
    refine Option.bind_eq_some_iff.mpr ⟨idMap, hreads.idMap, ?_⟩
    refine Option.bind_eq_some_iff.mpr ⟨documents, hreads.documents, ?_⟩
    refine Option.bind_eq_some_iff.mpr ⟨metadata, hreads.metadata, ?_⟩
    refine Option.bind_eq_some_iff.mpr ⟨maps, hmaps, ?_⟩
    refine Option.bind_eq_some_iff.mpr ⟨(), by simpa using hlazy, ?_⟩
    refine Option.bind_eq_some_iff.mpr ⟨_, hsummary, ?_⟩
    exact Option.bind_eq_some_iff.mpr ⟨indexLen, hindex, h⟩

theorem verifyPath_eq {verdicts : Verdicts} {path : AdapterPath Text} {disk : Disk} :
    verifyPath codec verdicts path disk =
      if path.manifestFile then verdicts.coreBundle
      else if path.store = some .file then verdicts.store
      else verifyMarked codec path.files disk := by
  unfold verifyPath classifyPath verifyMarked
  by_cases hmanifest : path.manifestFile
  · simp [hmanifest]
  · by_cases hstore : path.store = some .file
    · simp [hmanifest, hstore]
    · simp [hmanifest, hstore, Option.bind_assoc]

/-- `verify` accepts the files that `import` accepts and that meet its further conditions. -/
theorem verifyMarked_iff_import :
    verifyMarked codec directory env.disk = some () ↔
      (importLegacyAdapter codec env directory).1.isSome ∧
        ∃ adapter idMap, directory.adapter.bind (readObject codec) = some adapter ∧
          directory.idMap.bind (fun file => readObject codec file.text) = some idMap ∧
          Stricter directory adapter idMap env.disk := by
  rw [import_isSome, verifyMarked_eq_some]
  constructor
  · rintro ⟨adapter, idMap, documents, metadata, name, header, maps, indexLen, hreads, hname,
      hheader, hmaps, hlazy, hscan, hindex, h⟩
    obtain ⟨hkeys, hschema, ⟨hbits, hdim, hempty, hpath⟩, hsidecars⟩ :=
      verifyHeader_eq_some.mp hheader
    obtain ⟨hexact, hschemas, hstrings, hslots, hnext, hdocuments, hmetadata⟩ :=
      readMaps_eq_some.mp hmaps
    obtain ⟨hread1, hread2, hread3, hread4⟩ := parses_of_verifyAdapterMaps h
    obtain ⟨stringToU64, hstringToU64⟩ := Option.isSome_iff_exists.mp hread1
    obtain ⟨u64ToSlot, hu64ToSlot⟩ := Option.isSome_iff_exists.mp hread2
    obtain ⟨texts, htexts⟩ := Option.isSome_iff_exists.mp hread3
    obtain ⟨values, hvalues⟩ := Option.isSome_iff_exists.mp hread4
    let parsed : ParsedPayloads := ⟨name, header.bits, header.dim, header.emptyLazy,
      header.indexPath, stringToU64, u64ToSlot, texts, values, maps.nextU64Id⟩
    have hmapsFit : SpelledOnce maps.u64ToSlot ∧ MapsFit parsed indexLen :=
      (verifyAdapterMaps_iff hstringToU64 hu64ToSlot htexts hvalues).mp h
    obtain ⟨hstoreDim, hrange⟩ := optionalDim_eq_some.mp hdim
    have hobjects : ParsedPayloads.parseObjects adapter idMap documents metadata = some parsed :=
      parseObjects_eq_some.mpr ⟨⟨hkeys, hexact⟩, ⟨hschema, hschemas⟩,
        ⟨hname, hbits, hstoreDim, hempty, hpath⟩,
        ⟨Option.bind_eq_some_iff.mpr ⟨_, hstrings, hstringToU64⟩,
          Option.bind_eq_some_iff.mpr ⟨_, hslots, hu64ToSlot⟩, hnext,
          Option.bind_eq_some_iff.mpr ⟨_, hdocuments, htexts⟩,
          Option.bind_eq_some_iff.mpr ⟨_, hmetadata, hvalues⟩⟩, hmapsFit.2.maps⟩
    refine ⟨⟨adapter, idMap, documents, metadata, parsed, hreads, hobjects, fun hisEmpty => ?_,
      indexLen, hindex, hmapsFit.2⟩, adapter, idMap, hreads.adapter, hreads.idMap,
      ⟨hsidecars, fun dim hsome => ?_, fun slots hsome => ?_, fun hisEmpty => ?_, hscan⟩⟩
    · obtain ⟨hnone, hbare⟩ := hlazy hisEmpty
      exact ⟨hnone, (noVectorArtifacts_iff.mp hbare).1⟩
    · exact hrange dim (Option.some.inj (hstoreDim.symm.trans hsome))
    · obtain rfl := Option.some.inj (hslots.symm.trans hsome)
      exact hmapsFit.1
    · have hlazyHeader := Option.some.inj (hempty.symm.trans hisEmpty)
      exact (noVectorArtifacts_iff.mp (hlazy hlazyHeader).2).2
  · rintro ⟨⟨adapter, idMap, documents, metadata, parsed, hreads, hobjects, hlazy, indexLen,
      hindex, hfit⟩, _, _, hsame1, hsame2, hstricter⟩
    obtain rfl := Option.some.inj (hreads.adapter.symm.trans hsame1)
    obtain rfl := Option.some.inj (hreads.idMap.symm.trans hsame2)
    obtain ⟨⟨hkeys, hexact⟩, ⟨hschema, hschemas⟩, ⟨hname, hbits, hdim, hempty, hpath⟩,
      ⟨hstrings, hslots, hnext, hdocuments, hmetadata⟩, -⟩ := parseObjects_eq_some.mp hobjects
    obtain ⟨strings, hstrings, hstringToU64⟩ := Option.bind_eq_some_iff.mp hstrings
    obtain ⟨slots, hslots, hu64ToSlot⟩ := Option.bind_eq_some_iff.mp hslots
    obtain ⟨texts, hdocuments, htexts⟩ := Option.bind_eq_some_iff.mp hdocuments
    obtain ⟨values, hmetadata, hvalues⟩ := Option.bind_eq_some_iff.mp hmetadata
    refine ⟨adapter, idMap, documents, metadata, parsed.adapterName,
      ⟨parsed.bits, parsed.dim, parsed.emptyLazy, parsed.indexPath⟩,
      ⟨strings, slots, parsed.nextU64Id, texts, values⟩, indexLen, hreads, hname,
      verifyHeader_eq_some.mpr ⟨hkeys, hschema, ⟨hbits, optionalDim_eq_some.mpr ⟨hdim, ?_⟩,
        hempty, hpath⟩, hstricter.sidecars⟩,
      readMaps_eq_some.mpr ⟨hexact, hschemas, hstrings, hslots, hnext, hdocuments, hmetadata⟩,
      fun hisEmpty => ?_, hstricter.scanned, hindex,
      (verifyAdapterMaps_iff hstringToU64 hu64ToSlot htexts hvalues).mpr
        ⟨hstricter.spelledOnce slots hslots, hfit⟩⟩
    · exact fun dim hsome => hstricter.dim dim (hdim.trans (congrArg some hsome))
    · obtain ⟨hnone, hbare⟩ := hlazy hisEmpty
      exact ⟨hnone, noVectorArtifacts_iff.mpr ⟨hbare, hstricter.bare (hisEmpty ▸ hempty)⟩⟩

end Both

/-- Where a directory holds neither a file `manifest.json` nor anything named `adapter.redb`,
`verify` accepts it exactly when `import` does and it meets the further conditions. Elsewhere they
part: a file `manifest.json` is all that `verify` goes by, and `import` is refused beside any
`adapter.redb`, while `verify` overlooks one that is no file. -/
theorem verify_iff_import (codec : JsonCodec Text) (verdicts : Verdicts) (path : AdapterPath Text)
    (env : Env) :
    (path.manifestFile = false → path.store = none →
      (verifyPath codec verdicts path env.disk = some () ↔
        (importPath codec env path).1.isSome ∧
          ∃ adapter idMap, path.files.adapter.bind (readObject codec) = some adapter ∧
            path.files.idMap.bind (fun file => readObject codec file.text) = some idMap ∧
            Stricter path.files adapter idMap env.disk)) ∧
    (path.manifestFile → verifyPath codec verdicts path env.disk = verdicts.coreBundle) ∧
    (path.store ≠ none → (importPath codec env path).1 = none) ∧
    verifyPath codec verdicts { path with store := some .directory } env.disk =
      verifyPath codec verdicts { path with store := none } env.disk := by
  refine ⟨fun hmanifest hstore => ?_, fun hmanifest => ?_, fun hstore => ?_, ?_⟩
  · rw [verifyPath_eq, hmanifest, hstore, importPath, hstore]
    exact verifyMarked_iff_import
  · rw [verifyPath_eq, if_pos hmanifest]
  · rw [importPath, if_pos (Option.isSome_iff_ne_none.mpr hstore)]
  · rw [verifyPath_eq, verifyPath_eq]
    rfl

/-- One record; the digests of the sidecars are those that the descriptors state. -/
def sampleDirectory (u64ToSlot : List (String × Value)) : LegacyDirectory Value :=
  let sha256 := String.ofList (List.replicate 64 '0')
  let file text := some ⟨text, sha256, 100⟩
  let descriptor := jsonObject [("sha256", .string sha256), ("file_size_bytes", jsonNat 100)]
  let payloads := singlePayloads "vectors/g000000000001.odb"
  { adapter := some (jsonObject [("schema_version", .string "ordinaldb.adapter.v1"),
      ("adapter", .string "langchain"), ("bits", jsonNat 2), ("dim", jsonNat 8),
      ("empty_lazy", .bool false), ("index_path", .string "vectors/g000000000001.odb"),
      ("sidecars", jsonObject [("id_map.json", descriptor), ("documents.json", descriptor),
        ("metadata.json", descriptor)])])
    idMap := file (jsonObject [("schema_version", .string "ordinaldb.adapter.id_map.v1"),
      ("next_u64_id", jsonNat 1), ("string_to_u64", jsonObject [("a", jsonNat 0)]),
      ("u64_to_slot", jsonObject u64ToSlot)])
    documents := file payloads.documentsJson
    metadata := file payloads.metadataJson }

/-- The directory of these files alone. -/
def samplePath (u64ToSlot : List (String × Value)) : AdapterPath Value :=
  ⟨sampleDirectory u64ToSlot, false, none⟩

theorem samplePath_imported :
    (importPath .ofTrees singleEnv (samplePath [("0", jsonNat 0)])).1.isSome := by
  have hverified : verifyMarked .ofTrees (sampleDirectory [("0", jsonNat 0)]) singleEnv.disk =
      some () := by decide +kernel
  refine (((verify_iff_import .ofTrees ⟨none, none⟩ (samplePath [("0", jsonNat 0)])
    singleEnv).1 rfl rfl).mp ?_).1
  rw [verifyPath_eq]
  exact hverified

-- The u64 id `0` is spelled twice, and the first slot lost.
example : (importLegacyAdapter .ofTrees singleEnv
      (sampleDirectory [("+0", jsonNat 7), ("0", jsonNat 0)])).1.isSome ∧
    verifyMarked .ofTrees (sampleDirectory [("+0", jsonNat 7), ("0", jsonNat 0)]) singleEnv.disk =
      none := by
  decide +kernel

end OrdinalDB.Cli
