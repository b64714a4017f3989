import OrdinalDB.Lib.Bytes
import OrdinalDB.Lib.F32
import OrdinalDB.Lib.Outcome
import OrdinalDB.Ltr.Auxiliaries

/-!
# Reading a feature cache

`read_verified_feature_cache_bundle_auxiliary` of `ordinaldb-ltr/src/lib.rs` beside
`validate_data`, which the writer asks. The reader sees the manifest of the cache and the size
and SHA-256 of its files, and no value in them.

`read_verified_shape`: the arrays in the files have the lengths that the manifest says, and what
`validate_data` asks beyond this is about values. `verified_cache_not_validated` is a cache where
none of that holds.
-/

namespace OrdinalDB.Ltr

open ByteCodec Float32Bits Outcome

abbrev Bytes := List UInt8

/-! ## Files -/

/-- The files of a cache beside its manifest, in the order in which they are written and read. -/
inductive CacheFile
  | featureSchema
  | groups
  | rowIds
  | labels
  | features
  | queries
  | split
  | provenance
deriving DecidableEq, Repr

namespace CacheFile

def all : List CacheFile :=
  [featureSchema, groups, rowIds, labels, features, queries, split, provenance]

theorem mem_all (file : CacheFile) : file ∈ all := by cases file <;> decide

/-- `FEATURE_SCHEMA_FILE` to `PROVENANCE_FILE`. -/
def name : CacheFile → Name
  | featureSchema => "feature_schema.json".toList
  | groups => "groups.u32".toList
  | rowIds => "row_ids.u64".toList
  | labels => "labels.f32".toList
  | features => "features.f32".toList
  | queries => "queries.jsonl".toList
  | split => "split.json".toList
  | provenance => "provenance.json".toList

/-- What the auxiliary name of the file has behind the name of the cache. -/
def suffix : CacheFile → Name
  | featureSchema => "feature_schema".toList
  | groups => "groups".toList
  | rowIds => "row_ids".toList
  | labels => "labels".toList
  | features => "features".toList
  | queries => "queries".toList
  | split => "split".toList
  | provenance => "provenance".toList

end CacheFile

/-- An absolute path by its components. -/
abbrev AbsPath := List Name

inductive Node
  | file (content : Bytes)
  | directory
  | symlink
deriving DecidableEq, Repr

/-- What stands at a path, symlinks not followed. -/
abbrev Disk := AbsPath → Option Node

/-! ## Records -/

structure ArtifactDescriptor where
  path : Name
  sha256 : Name
  fileSizeBytes : UInt64
deriving DecidableEq, Repr

structure FeatureCacheFiles where
  featureSchema : ArtifactDescriptor
  groupsU32 : ArtifactDescriptor
  rowIdsU64 : ArtifactDescriptor
  labelsF32 : ArtifactDescriptor
  featuresF32 : ArtifactDescriptor
  queriesJsonl : ArtifactDescriptor
  splitJson : ArtifactDescriptor
  provenanceJson : ArtifactDescriptor
deriving DecidableEq, Repr

def FeatureCacheFiles.descriptor (files : FeatureCacheFiles) : CacheFile → ArtifactDescriptor
  | .featureSchema => files.featureSchema
  | .groups => files.groupsU32
  | .rowIds => files.rowIdsU64
  | .labels => files.labelsF32
  | .features => files.featuresF32
  | .queries => files.queriesJsonl
  | .split => files.splitJson
  | .provenance => files.provenanceJson

/-- The manifest of a cache, as far as a reader looks at it. -/
structure FeatureCacheManifest where
  schemaVersion : Name
  featureNames : List Name
  queryCount : UInt64
  rowCount : UInt64
  groupCount : UInt64
  files : FeatureCacheFiles
deriving DecidableEq, Repr

structure QueryCacheRecord where
  queryId : Name
  query : Name
deriving DecidableEq, Repr

structure FeatureSchemaRecord where
  schemaVersion : Name
  featureNames : List Name
  forbiddenFeatures : List Name
  denseFeaturesPresent : Bool
deriving DecidableEq, Repr

/-- The data of a cache, as far as `validate_data` looks at it. -/
structure FeatureCacheData where
  featureNames : List Name
  groups : List UInt32
  rowIds : List UInt64
  labels : List F32
  features : List F32
  queries : List QueryCacheRecord
deriving DecidableEq

structure VerifiedFeatureCachePaths where
  featureSchema : AbsPath
  groupsU32 : AbsPath
  rowIdsU64 : AbsPath
  labelsF32 : AbsPath
  featuresF32 : AbsPath
  queriesJsonl : AbsPath
  splitJson : AbsPath
  provenanceJson : AbsPath
deriving DecidableEq, Repr

def VerifiedFeatureCachePaths.path (paths : VerifiedFeatureCachePaths) : CacheFile → AbsPath
  | .featureSchema => paths.featureSchema
  | .groups => paths.groupsU32
  | .rowIds => paths.rowIdsU64
  | .labels => paths.labelsF32
  | .features => paths.featuresF32
  | .queries => paths.queriesJsonl
  | .split => paths.splitJson
  | .provenance => paths.provenanceJson

structure VerifiedFeatureCache where
  manifest : FeatureCacheManifest
  manifestPath : AbsPath
  paths : VerifiedFeatureCachePaths
deriving DecidableEq, Repr

/-! ## Errors -/

/-- Whose values an error is about: those to be written, or those of a manifest that was read. -/
inductive Subject
  | data
  | manifest
deriving DecidableEq, Repr

inductive InvalidCache
  | auxName
  | path (path : AbsPath)
  | symlink (path : AbsPath)
  | schemaVersion (version : Name)
  | noFeatureNames (subject : Subject)
  | emptyFeatureName (subject : Subject)
  | duplicateFeatureName (subject : Subject) (name : Name)
  | valueCountOverflow (subject : Subject)
  | groupCount (groups queries : Nat)
  | groupRowCountOverflow
  | groupRowCount (rowCount rowIds labels : Nat)
  | featureValueCount (values expected : Nat)
  | featureNotFinite (index : Nat)
  | labelNotFinite (index : Nat)
  | queryCount (queries groups : UInt64)
  | byteCountOverflow (file : CacheFile)
  | byteCount (file : CacheFile) (actual : UInt64) (expected : Nat)
  | descriptorPath (path : Name) (file : CacheFile)
  | notRegular (path : AbsPath)
  | descriptorSize (file : CacheFile) (recorded : UInt64) (actual : Nat)
  | descriptorSha256 (file : CacheFile)
deriving DecidableEq, Repr

inductive LtrError
  | io
  | json
  | invalid (what : InvalidCache)
  | manifest
deriving DecidableEq, Repr

abbrev CacheResult := Except LtrError

def invalid {α : Type} (what : InvalidCache) : CacheResult α := .error (.invalid what)

/-! ## Feature names and counts -/

/-- `checked_add` and `checked_mul` of `usize`, on the exact result. -/
def checkedUsize (value : Nat) : Option Nat := if value < 2 ^ 64 then some value else none

/-- The loop over the feature names; `seen` holds the names before. -/
def checkFeatureNames (subject : Subject) (seen : List Name) : List Name → CacheResult Unit
  | [] => pure ()
  | name :: names => do
    reject (trim name = []) (.invalid (.emptyFeatureName subject))
    reject (name ∈ seen) (.invalid (.duplicateFeatureName subject name))
    checkFeatureNames subject (name :: seen) names

def validateFeatureNames (subject : Subject) (names : List Name) : CacheResult Unit := do
  reject (names = []) (.invalid (.noFeatureNames subject))
  checkFeatureNames subject [] names

/-- The row count of `validate_data`. -/
def groupRowCount (groups : List UInt32) : Option Nat :=
  groups.foldlM (fun sum group => checkedUsize (sum + group.toNat)) 0

/-- The loop that looks for a value that is not finite. -/
def checkFinite (error : Nat → InvalidCache) (values : List F32) : CacheResult Unit :=
  match values.findIdx? fun value => !value.isFinite with
  | some index => invalid (error index)
  | none => pure ()

/-! ## What is written -/

def validateData (data : FeatureCacheData) : CacheResult Unit := do
  validateFeatureNames .data data.featureNames
  reject (data.groups.length ≠ data.queries.length)
    (.invalid (.groupCount data.groups.length data.queries.length))
  let rowCount ← okOr (groupRowCount data.groups) (.invalid .groupRowCountOverflow)
  reject (rowCount ≠ data.rowIds.length ∨ rowCount ≠ data.labels.length)
    (.invalid (.groupRowCount rowCount data.rowIds.length data.labels.length))
  let expected ← okOr (checkedUsize (rowCount * data.featureNames.length))
    (.invalid (.valueCountOverflow .data))
  reject (data.features.length ≠ expected)
    (.invalid (.featureValueCount data.features.length expected))
  checkFinite .featureNotFinite data.features
  checkFinite .labelNotFinite data.labels

/-- `write_u32_file`. -/
def u32File (values : List UInt32) : Bytes := values.flatMap fun value => le 4 value.toNat

/-- `write_u64_file`. -/
def u64File (values : List UInt64) : Bytes := values.flatMap fun value => le 8 value.toNat

/-- `write_f32_file`. -/
def f32File (values : List F32) : Bytes := values.flatMap fun value => le 4 value.bits.toNat

/-! ## What is read -/

def featureCacheSchemaVersion : Name := "ordinaldb.ltr.features.v1".toList

def checkedBytes (file : CacheFile) (count width : Nat) (actual : UInt64) : CacheResult Unit := do
  let expected ← okOr (checkedUsize (count * width)) (.invalid (.byteCountOverflow file))
  reject (actual.toNat ≠ expected) (.invalid (.byteCount file actual expected))

def validateFeatureCacheManifestShape (manifest : FeatureCacheManifest) : CacheResult Unit := do
  reject (manifest.schemaVersion ≠ featureCacheSchemaVersion)
    (.invalid (.schemaVersion manifest.schemaVersion))
  validateFeatureNames .manifest manifest.featureNames
  reject (manifest.queryCount ≠ manifest.groupCount)
    (.invalid (.queryCount manifest.queryCount manifest.groupCount))
  let expectedFeatureValues ←
    okOr (checkedUsize (manifest.rowCount.toNat * manifest.featureNames.length))
      (.invalid (.valueCountOverflow .manifest))
  checkedBytes .groups manifest.groupCount.toNat 4 manifest.files.groupsU32.fileSizeBytes
  checkedBytes .rowIds manifest.rowCount.toNat 8 manifest.files.rowIdsU64.fileSizeBytes
  checkedBytes .labels manifest.rowCount.toNat 4 manifest.files.labelsF32.fileSizeBytes
  checkedBytes .features expectedFeatureValues 4 manifest.files.featuresF32.fileSizeBytes

/-- The operating system, `ordvec-manifest`, `serde_json` and `sha2`. -/
structure Platform where
  /-- `fs::canonicalize`. -/
  canonicalize : AbsPath → Option AbsPath
  /-- `verify_for_load` below a size limit; the report as `require_auxiliary` reads it. -/
  verifyForLoad : AbsPath → Nat → Option (Name → Option AbsPath)
  sha256 : Bytes → Name
  parseManifest : Bytes → Option FeatureCacheManifest
  parseSchema : Bytes → Option FeatureSchemaRecord
  parseQuery : Bytes → Option QueryCacheRecord

def rejectExistingSymlinkPath (disk : Disk) (path : AbsPath) : CacheResult Unit :=
  reject (disk path = some .symlink) (.invalid (.symlink path))

def validateVerifiedBundlePath (disk : Disk) (bundleRoot path : AbsPath) : CacheResult Unit := do
  reject (¬bundleRoot <+: path) .manifest
  let relative ← okOr
    (normalizeBundleRelativeDir (List.intercalate ['/'] (path.drop bundleRoot.length)))
    (.invalid (.path path))
  relative.inits.forM fun part => rejectExistingSymlinkPath disk (bundleRoot ++ part)

/-- `File::open` and reading to the end, at a path that is no symlink. -/
def readFile (disk : Disk) (path : AbsPath) : CacheResult Bytes :=
  match disk path with
  | some (.file content) => pure content
  | _ => .error .io

def readFeatureCacheManifestFile (platform : Platform) (disk : Disk) (path : AbsPath) :
    CacheResult FeatureCacheManifest := do
  let content ← readFile disk path
  okOr (platform.parseManifest content) .json

def requireFeatureAuxiliary (disk : Disk) (bundleRoot : AbsPath) (plan : Name → Option AbsPath)
    (auxName : Name) (file : CacheFile) : CacheResult AbsPath := do
  let path ← okOr (plan (auxName ++ '.' :: file.suffix)) .manifest
  validateVerifiedBundlePath disk bundleRoot path
  pure path

def validateDescriptor (platform : Platform) (disk : Disk) (descriptor : ArtifactDescriptor)
    (file : CacheFile) (verifiedPath : AbsPath) : CacheResult Unit := do
  reject (descriptor.path ≠ file.name) (.invalid (.descriptorPath descriptor.path file))
  match disk verifiedPath with
  | none => .error .io
  | some (.file content) =>
    reject (descriptor.fileSizeBytes.toNat ≠ content.length)
      (.invalid (.descriptorSize file descriptor.fileSizeBytes content.length))
    reject (descriptor.sha256 ≠ platform.sha256 content) (.invalid (.descriptorSha256 file))
  | some _ => invalid (.notRegular verifiedPath)

def validateVerifiedFeatureDescriptors (platform : Platform) (disk : Disk)
    (manifest : FeatureCacheManifest) (paths : VerifiedFeatureCachePaths) : CacheResult Unit :=
  CacheFile.all.forM fun file =>
    validateDescriptor platform disk (manifest.files.descriptor file) file (paths.path file)

def readVerifiedFeatureCacheBundleAuxiliary (platform : Platform) (disk : Disk) (bundle : AbsPath)
    (options : BundleFeatureCacheOptions) : CacheResult VerifiedFeatureCache := do
  reject (validateAuxName options.auxName = false) (.invalid .auxName)
  let bundleRoot ← okOr (platform.canonicalize bundle) .manifest
  let plan ← okOr (platform.verifyForLoad (bundle ++ ["manifest.json".toList])
    options.maxAuxiliaryArtifactBytes) .manifest
  let manifestArtifact ← okOr (plan options.auxName) .manifest
  validateVerifiedBundlePath disk bundleRoot manifestArtifact
  let manifest ← readFeatureCacheManifestFile platform disk manifestArtifact
  validateFeatureCacheManifestShape manifest
  let require := requireFeatureAuxiliary disk bundleRoot plan options.auxName
  let paths : VerifiedFeatureCachePaths :=
    { featureSchema := ← require .featureSchema
      groupsU32 := ← require .groups
      rowIdsU64 := ← require .rowIds
      labelsF32 := ← require .labels
      featuresF32 := ← require .features
      queriesJsonl := ← require .queries
      splitJson := ← require .split
      provenanceJson := ← require .provenance }
  validateVerifiedFeatureDescriptors platform disk manifest paths
  pure ⟨manifest, manifestArtifact, paths⟩

/-! ## What is in the files -/

def contentOf (disk : Disk) (path : AbsPath) : Bytes :=
  match disk path with
  | some (.file content) => content
  | _ => []

/-- The lines of `queries.jsonl`. -/
def readQueries (platform : Platform) (content : Bytes) : Option (List QueryCacheRecord) :=
  ((content.splitOn 10).filter (· ≠ [])).mapM platform.parseQuery

/-- The arrays of a cache that was read, with its queries. -/
def cacheData (disk : Disk) (cache : VerifiedFeatureCache) (queries : List QueryCacheRecord) :
    FeatureCacheData where
  featureNames := cache.manifest.featureNames
  groups := (words 4 (contentOf disk cache.paths.groupsU32)).map UInt32.ofNat
  rowIds := (words 8 (contentOf disk cache.paths.rowIdsU64)).map UInt64.ofNat
  labels := (words 4 (contentOf disk cache.paths.labelsF32)).map fun bits => ⟨UInt32.ofNat bits⟩
  features := (words 4 (contentOf disk cache.paths.featuresF32)).map fun bits =>
    ⟨UInt32.ofNat bits⟩
  queries := queries

/-- The files of a cache hold data that could have been written. -/
def WriterInvariants (platform : Platform) (disk : Disk) (cache : VerifiedFeatureCache) : Prop :=
  ∃ queries schema,
    readQueries platform (contentOf disk cache.paths.queriesJsonl) = some queries ∧
    platform.parseSchema (contentOf disk cache.paths.featureSchema) = some schema ∧
    validateData (cacheData disk cache queries) = .ok () ∧
    schema.featureNames = cache.manifest.featureNames

/-! ## Checks that pass -/

theorem checkedUsize_eq_some {value r : Nat} :
    checkedUsize value = some r ↔ value < 2 ^ 64 ∧ value = r := by
  rw [checkedUsize, Option.ite_none_right_eq_some, Option.some.injEq]

theorem checkFeatureNames_eq_ok {subject : Subject} {seen names : List Name} {u : Unit} :
    checkFeatureNames subject seen names = .ok u ↔
      (∀ name ∈ names, trim name ≠ [] ∧ name ∉ seen) ∧ names.Nodup := by
  induction names generalizing seen with
  | nil => exact iff_of_true rfl ⟨nofun, List.nodup_nil⟩
  | cons name names ih =>
    simp only [checkFeatureNames, bind_eq_ok, reject_eq_ok, exists_const, ih, List.forall_mem_cons,
      List.nodup_cons]
    constructor
    · rintro ⟨hblank, hseen, hrest, hnodup⟩
      have hnew : name ∉ names := fun hmem => (hrest name hmem).2 List.mem_cons_self
      exact ⟨⟨⟨hblank, hseen⟩, fun other h =>
        ⟨(hrest other h).1, List.not_mem_of_not_mem_cons (hrest other h).2⟩⟩, hnew, hnodup⟩
    · rintro ⟨⟨⟨hblank, hseen⟩, hrest⟩, hnew, hnodup⟩
      refine ⟨hblank, hseen, fun other h => ⟨(hrest other h).1, ?_⟩, hnodup⟩
      exact List.not_mem_cons_of_ne_of_not_mem (fun heq => hnew (heq ▸ h)) (hrest other h).2

/-- Names of features: some, none of them blank, no two equal. -/
structure FeatureNames (names : List Name) : Prop where
  nonempty : names ≠ []
  not_blank : ∀ name ∈ names, trim name ≠ []
  nodup : names.Nodup

theorem validateFeatureNames_eq_ok {subject : Subject} {names : List Name} {u : Unit} :
    validateFeatureNames subject names = .ok u ↔ FeatureNames names := by
  simp only [validateFeatureNames, bind_eq_ok, reject_eq_ok, exists_const, checkFeatureNames_eq_ok]
  constructor
  · rintro ⟨hne, hnames, hnodup⟩
    exact ⟨hne, fun name h => (hnames name h).1, hnodup⟩
  · rintro ⟨hne, hblank, hnodup⟩
    exact ⟨hne, fun name h => ⟨hblank name h, List.not_mem_nil⟩, hnodup⟩

/-- The checked sum is the sum when it fits. -/
theorem groupRowCount_from {groups : List UInt32} {sum total : Nat} (hsum : sum < 2 ^ 64) :
    groups.foldlM (fun sum group => checkedUsize (sum + group.toNat)) sum = some total ↔
      total < 2 ^ 64 ∧ total = sum + (groups.map UInt32.toNat).sum := by
  induction groups generalizing sum with
  | nil =>
    show some sum = some total ↔ _
    rw [Option.some.injEq, List.map_nil, List.sum_nil, Nat.add_zero]
    constructor
    · rintro rfl
      exact ⟨hsum, rfl⟩
    · exact fun h => h.2.symm
  | cons group groups ih =>
    rw [List.foldlM_cons, List.map_cons, List.sum_cons, ← Nat.add_assoc]
    unfold checkedUsize
    split
    next hfits => exact ih hfits
    next hlarge =>
      refine iff_of_false nofun fun ⟨htotal, heq⟩ => hlarge ?_
      exact (heq ▸ Nat.le_add_right _ _).trans_lt htotal

theorem groupRowCount_eq_some {groups : List UInt32} {total : Nat} :
    groupRowCount groups = some total ↔
      total < 2 ^ 64 ∧ total = (groups.map UInt32.toNat).sum := by
  rw [groupRowCount, groupRowCount_from (by decide), Nat.zero_add]

theorem checkFinite_eq_ok {error : Nat → InvalidCache} {values : List F32} {u : Unit} :
    checkFinite error values = .ok u ↔ ∀ value ∈ values, value.isFinite := by
  have hnone : (values.findIdx? fun value => !value.isFinite) = none ↔
      ∀ value ∈ values, value.isFinite := by
    simp [List.findIdx?_eq_none_iff]
  rw [← hnone, checkFinite]
  split
  next index h => exact iff_of_false nofun fun hnone => nomatch h.symm.trans hnone
  next h => exact iff_of_true rfl h

/-- What `validate_data` asks. -/
theorem validateData_eq_ok {data : FeatureCacheData} {u : Unit} :
    validateData data = .ok u ↔ FeatureNames data.featureNames ∧
      data.groups.length = data.queries.length ∧
      ∃ rowCount, (rowCount < 2 ^ 64 ∧ rowCount = (data.groups.map UInt32.toNat).sum) ∧
        (rowCount = data.rowIds.length ∧ rowCount = data.labels.length) ∧
        (rowCount * data.featureNames.length < 2 ^ 64 ∧
          data.features.length = rowCount * data.featureNames.length) ∧
        (∀ value ∈ data.features, value.isFinite) ∧ ∀ label ∈ data.labels, label.isFinite := by
  simp only [validateData, bind_eq_ok, reject_eq_ok, exists_const, validateFeatureNames_eq_ok,
    okOr_eq_ok, checkedUsize_eq_some, groupRowCount_eq_some, checkFinite_eq_ok, not_or, not_not]
  refine and_congr_right fun _ => and_congr_right fun _ => exists_congr fun rowCount =>
    and_congr_right fun _ => and_congr_right fun _ => ?_
  constructor
  · rintro ⟨expected, ⟨hfits, rfl⟩, hlength, hfeatures, hlabels⟩
    exact ⟨⟨hfits, hlength⟩, hfeatures, hlabels⟩
  · rintro ⟨⟨hfits, hlength⟩, hfeatures, hlabels⟩
    exact ⟨_, ⟨hfits, rfl⟩, hlength, hfeatures, hlabels⟩

theorem checkedBytes_eq_ok {file : CacheFile} {count width : Nat} {actual : UInt64} {u : Unit} :
    checkedBytes file count width actual = .ok u ↔
      count * width < 2 ^ 64 ∧ actual.toNat = count * width := by
  simp only [checkedBytes, bind_eq_ok, okOr_eq_ok, checkedUsize_eq_some, reject_eq_ok, not_not]
  constructor
  · rintro ⟨expected, ⟨hfits, rfl⟩, hactual⟩
    exact ⟨hfits, hactual⟩
  · rintro ⟨hfits, hactual⟩
    exact ⟨_, ⟨hfits, rfl⟩, hactual⟩

/-- A manifest that describes files of the right sizes. -/
structure ManifestShape (manifest : FeatureCacheManifest) : Prop where
  version : manifest.schemaVersion = featureCacheSchemaVersion
  names : FeatureNames manifest.featureNames
  queries : manifest.queryCount = manifest.groupCount
  values : manifest.rowCount.toNat * manifest.featureNames.length < 2 ^ 64
  groups : manifest.files.groupsU32.fileSizeBytes.toNat = manifest.groupCount.toNat * 4
  rowIds : manifest.files.rowIdsU64.fileSizeBytes.toNat = manifest.rowCount.toNat * 8
  labels : manifest.files.labelsF32.fileSizeBytes.toNat = manifest.rowCount.toNat * 4
  features : manifest.files.featuresF32.fileSizeBytes.toNat =
    manifest.rowCount.toNat * manifest.featureNames.length * 4

theorem shape_of_ok {manifest : FeatureCacheManifest} {u : Unit}
    (h : validateFeatureCacheManifestShape manifest = .ok u) : ManifestShape manifest := by
  simp only [validateFeatureCacheManifestShape, bind_eq_ok, reject_eq_ok, exists_const,
    validateFeatureNames_eq_ok, okOr_eq_ok, checkedUsize_eq_some, checkedBytes_eq_ok, not_not] at h
  obtain ⟨hversion, hnames, hqueries, _, ⟨hvalues, rfl⟩, ⟨-, hgroups⟩, ⟨-, hrowIds⟩, ⟨-, hlabels⟩,
    -, hfeatures⟩ := h
  exact ⟨hversion, hnames, hqueries, hvalues, hgroups, hrowIds, hlabels, hfeatures⟩

/-- A file is what its descriptor says. -/
structure Matches (platform : Platform) (disk : Disk) (descriptor : ArtifactDescriptor)
    (file : CacheFile) (path : AbsPath) : Prop where
  regular : disk path = some (.file (contentOf disk path))
  name : descriptor.path = file.name
  size : descriptor.fileSizeBytes.toNat = (contentOf disk path).length
  sha256 : descriptor.sha256 = platform.sha256 (contentOf disk path)

theorem matches_of_ok {platform : Platform} {disk : Disk} {descriptor : ArtifactDescriptor}
    {file : CacheFile} {path : AbsPath} {u : Unit}
    (h : validateDescriptor platform disk descriptor file path = .ok u) :
    Matches platform disk descriptor file path := by
  simp only [validateDescriptor, bind_eq_ok, reject_eq_ok, exists_const, not_not] at h
  obtain ⟨hname, h⟩ := h
  split at h
  next => cases h
  next content hfile =>
    obtain ⟨_, hsize, hsha⟩ := bind_eq_ok.mp h
    have hcontent : contentOf disk path = content := by rw [contentOf, hfile]
    rw [reject_eq_ok, not_not, ← hcontent] at hsize hsha
    exact ⟨by rw [hcontent, hfile], hname, hsize, hsha⟩
  next => cases h

/-! ## A cache that was read -/

section Read

variable {platform : Platform} {disk : Disk} {bundle : AbsPath}
  {options : BundleFeatureCacheOptions} {cache : VerifiedFeatureCache}

/-- The two checks that the result of a read has passed. -/
theorem checks_of_read
    (h : readVerifiedFeatureCacheBundleAuxiliary platform disk bundle options = .ok cache) :
    ManifestShape cache.manifest ∧ ∀ file, Matches platform disk
      (cache.manifest.files.descriptor file) file (cache.paths.path file) := by
  simp only [readVerifiedFeatureCacheBundleAuxiliary, bind_eq_ok, pure_eq_ok] at h
  -- the steps in the order of the code: the names between the shape and the descriptors are the
  -- eight paths
  obtain ⟨-, -, root, -, plan, -, artifact, -, -, -, manifest, -, _, hshape, schema, -, groups, -,
    rowIds, -, labels, -, features, -, queries, -, split, -, provenance, -, _, hdescriptors,
    rfl⟩ := h
  exact ⟨shape_of_ok hshape, fun file =>
    matches_of_ok (forM_eq_ok.mp hdescriptors file file.mem_all)⟩

/-- The files hold these arrays, of the lengths that the manifest says. -/
structure CacheArrays (disk : Disk) (cache : VerifiedFeatureCache) (data : FeatureCacheData) :
    Prop where
  groupsFile : u32File data.groups = contentOf disk cache.paths.groupsU32
  rowIdsFile : u64File data.rowIds = contentOf disk cache.paths.rowIdsU64
  labelsFile : f32File data.labels = contentOf disk cache.paths.labelsF32
  featuresFile : f32File data.features = contentOf disk cache.paths.featuresF32
  groups : data.groups.length = cache.manifest.groupCount.toNat
  rowIds : data.rowIds.length = cache.manifest.rowCount.toNat
  labels : data.labels.length = cache.manifest.rowCount.toNat
  features : data.features.length =
    cache.manifest.rowCount.toNat * cache.manifest.featureNames.length

theorem f32_table {bytes : Bytes} {n : Nat} (h : bytes.length = n * 4) :
    f32File ((words 4 bytes).map fun bits => ⟨UInt32.ofNat bits⟩) = bytes ∧
      ((words 4 bytes).map fun bits => (⟨UInt32.ofNat bits⟩ : F32)).length = n := by
  refine ⟨flatMap_map_words (by decide) (fun v hv => ?_) h, ?_⟩
  · exact UInt32.toNat_ofNat_of_lt' hv
  · rw [List.length_map, length_words, h, Nat.mul_div_cancel _ (by decide)]

theorem cacheArrays_of_read
    (h : readVerifiedFeatureCacheBundleAuxiliary platform disk bundle options = .ok cache)
    (queries : List QueryCacheRecord) : CacheArrays disk cache (cacheData disk cache queries) := by
  obtain ⟨hshape, hfiles⟩ := checks_of_read h
  have hgroups : (contentOf disk cache.paths.groupsU32).length =
      cache.manifest.groupCount.toNat * 4 := (hfiles .groups).size.symm.trans hshape.groups
  have hrowIds : (contentOf disk cache.paths.rowIdsU64).length =
      cache.manifest.rowCount.toNat * 8 := (hfiles .rowIds).size.symm.trans hshape.rowIds
  have hlabels := f32_table ((hfiles .labels).size.symm.trans hshape.labels)
  have hfeatures := f32_table ((hfiles .features).size.symm.trans hshape.features)
  refine ⟨?_, ?_, hlabels.1, hfeatures.1, ?_, ?_, hlabels.2, hfeatures.2⟩
  · exact flatMap_map_words (by decide) (fun v hv => UInt32.toNat_ofNat_of_lt' hv) hgroups
  · exact flatMap_map_words (by decide) (fun v hv => UInt64.toNat_ofNat_of_lt' hv) hrowIds
  · show ((words 4 _).map UInt32.ofNat).length = _
    rw [List.length_map, length_words, hgroups, Nat.mul_div_cancel _ (by decide)]
  · show ((words 8 _).map UInt64.ofNat).length = _
    rw [List.length_map, length_words, hrowIds, Nat.mul_div_cancel _ (by decide)]

/-- A cache that was read is described by its manifest; what the writer asks beyond this is
about the values in the files. -/
theorem read_verified_shape
    (h : readVerifiedFeatureCacheBundleAuxiliary platform disk bundle options = .ok cache) :
    ManifestShape cache.manifest ∧
      (∀ file, Matches platform disk (cache.manifest.files.descriptor file) file
        (cache.paths.path file)) ∧
      ∀ queries, CacheArrays disk cache (cacheData disk cache queries) ∧
        (validateData (cacheData disk cache queries) = .ok () ↔
          queries.length = cache.manifest.queryCount.toNat ∧
          ((cacheData disk cache queries).groups.map UInt32.toNat).sum =
            cache.manifest.rowCount.toNat ∧
          (∀ value ∈ (cacheData disk cache queries).features, value.isFinite) ∧
          ∀ label ∈ (cacheData disk cache queries).labels, label.isFinite) := by
  obtain ⟨hshape, hfiles⟩ := checks_of_read h
  refine ⟨hshape, hfiles, fun queries => ?_⟩
  have harrays := cacheArrays_of_read h queries
  refine ⟨harrays, ?_⟩
  rw [validateData_eq_ok, harrays.groups, harrays.rowIds, harrays.labels, harrays.features,
    hshape.queries]
  show FeatureNames cache.manifest.featureNames ∧ _ = queries.length ∧ _ ↔ _
  constructor
  · rintro ⟨-, hqueries, rowCount, ⟨-, hsum⟩, ⟨hrows, -⟩, -, hfinite⟩
    exact ⟨hqueries.symm, hsum.symm.trans hrows, hfinite⟩
  · rintro ⟨hqueries, hsum, hfinite⟩
    exact ⟨hshape.names, hqueries.symm, _, ⟨cache.manifest.rowCount.toNat_lt, hsum.symm⟩,
      ⟨rfl, rfl⟩, ⟨hshape.values, rfl⟩, hfinite⟩

end Read

/-! ## A cache that could not have been written -/

def ascii (text : Name) : Bytes := text.map fun c => UInt8.ofNat c.toNat

/-- One query with two rows, of which one is there, with a label that is no number and an
infinite feature; no query text, and a schema of other features. -/
def oddContent : CacheFile → Bytes
  | .featureSchema => ascii ("\x7b\"schema_version\":\"ordinaldb.ltr.features.v1\",".toList ++
      "\"feature_names\":[\"other\"],\"forbidden_features\":[],".toList ++
      "\"dense_features_present\":false\x7d".toList)
  | .groups => le 4 2
  | .rowIds => le 8 7
  | .labels => le 4 0x7fc00000
  | .features => le 4 0x7f800000
  | .queries => []
  | .split => ascii "\x7b\x7d".toList
  | .provenance => ascii "\x7b\x7d".toList

def oddSha256 : CacheFile → Name
  | .featureSchema => Nat.toDigits 16 0xc8c0515d201a9d9d8ff3c36b90433594bcbe36d93d27c0458ce64ba14169ddb5
  | .groups => Nat.toDigits 16 0x26b25d457597a7b0463f9620f666dd10aa2c4373a505967c7c8d70922a2d6ece
  | .rowIds => Nat.toDigits 16 0xaae89fc0f03e2959ae4d701a80cc3915918c950b159f6abb6c92c1433b1a8534
  | .labels => Nat.toDigits 16 0xef1eaf26cea96eb18f8fa3137abdf23f52852a855c22ae6f169d21a379dcd739
  | .features => Nat.toDigits 16 0xd7173dd8a9e81deded3f2e4719ef149effbd21afd81da9d10ed50b5dff69a708
  | .queries => Nat.toDigits 16 0xe3b0c44298fc1c149afbf4c8996fb92427ae41e4649b934ca495991b7852b855
  | .split => Nat.toDigits 16 0x44136fa355b3678a1146ad16f7e8649e94fb4fc21fe77e8310c060f61caaff8a
  | .provenance => Nat.toDigits 16 0x44136fa355b3678a1146ad16f7e8649e94fb4fc21fe77e8310c060f61caaff8a

def oddDescriptor (file : CacheFile) : ArtifactDescriptor :=
  ⟨file.name, oddSha256 file, UInt64.ofNat (oddContent file).length⟩

def oddManifest : FeatureCacheManifest where
  schemaVersion := featureCacheSchemaVersion
  featureNames := ["bm25_score".toList]
  queryCount := 1
  rowCount := 1
  groupCount := 1
  files :=
    { featureSchema := oddDescriptor .featureSchema
      groupsU32 := oddDescriptor .groups
      rowIdsU64 := oddDescriptor .rowIds
      labelsF32 := oddDescriptor .labels
      featuresF32 := oddDescriptor .features
      queriesJsonl := oddDescriptor .queries
      splitJson := oddDescriptor .split
      provenanceJson := oddDescriptor .provenance }

def oddDescriptorText (key : Name) (file : CacheFile) : Name :=
  '"' :: key ++ "\":\x7b\"path\":\"".toList ++ file.name ++ "\",\"sha256\":\"".toList ++
    oddSha256 file ++ "\",\"file_size_bytes\":".toList ++
    Text.decimal (oddContent file).length ++ "\x7d".toList

/-- The manifest as it stands in its file. -/
def oddManifestText : Name :=
  "\x7b\"schema_version\":\"ordinaldb.ltr.features.v1\",\"feature_names\":".toList ++
    "[\"bm25_score\"],\"query_count\":1,\"row_count\":1,\"group_count\":1,".toList ++
    "\"label_kind\":\"qrels\",\"qrels_source_sha256\":null,".toList ++
    "\"bundle_manifest_sha256\":null,\"forbidden_features_present\":[],".toList ++
    "\"dense_features_present\":false,\"files\":\x7b".toList ++
    List.intercalate [','] [oddDescriptorText "feature_schema".toList .featureSchema,
      oddDescriptorText "groups_u32".toList .groups,
      oddDescriptorText "row_ids_u64".toList .rowIds,
      oddDescriptorText "labels_f32".toList .labels,
      oddDescriptorText "features_f32".toList .features,
      oddDescriptorText "queries_jsonl".toList .queries,
      oddDescriptorText "split_json".toList .split,
      oddDescriptorText "provenance_json".toList .provenance] ++ "\x7d\x7d".toList

def oddRoot : AbsPath := ["srv".toList, "a.odb".toList]

def oddPath (file : Name) : AbsPath := oddRoot ++ ["ltr".toList, file]

def oddDisk : Disk := fun path =>
  if path = oddPath "manifest.json".toList then some (.file (ascii oddManifestText))
  else match CacheFile.all.find? fun file => path = oddPath file.name with
    | some file => some (.file (oddContent file))
    | none => if path <+: oddPath [] then some .directory else none

def oddOptions : BundleFeatureCacheOptions := ⟨"cache".toList, 2 ^ 31⟩

/-- The libraries on this bundle. -/
def oddPlatform : Platform where
  canonicalize path := some path
  verifyForLoad _ _ := some fun name =>
    if name = oddOptions.auxName then some (oddPath "manifest.json".toList)
    else (CacheFile.all.find? fun file => name = oddOptions.auxName ++ '.' :: file.suffix).map
      fun file => oddPath file.name
  sha256 content :=
    match CacheFile.all.find? fun file => content = oddContent file with
    | some file => oddSha256 file
    | none => []
  parseManifest content := if content = ascii oddManifestText then some oddManifest else none
  parseSchema content :=
    if content = oddContent .featureSchema then
      some ⟨featureCacheSchemaVersion, ["other".toList], [], false⟩
    else none
  parseQuery _ := none

def oddCache : VerifiedFeatureCache where
  manifest := oddManifest
  manifestPath := oddPath "manifest.json".toList
  paths :=
    { featureSchema := oddPath CacheFile.featureSchema.name
      groupsU32 := oddPath CacheFile.groups.name
      rowIdsU64 := oddPath CacheFile.rowIds.name
      labelsF32 := oddPath CacheFile.labels.name
      featuresF32 := oddPath CacheFile.features.name
      queriesJsonl := oddPath CacheFile.queries.name
      splitJson := oddPath CacheFile.split.name
      provenanceJson := oddPath CacheFile.provenance.name }

theorem odd_manifest : readFeatureCacheManifestFile oddPlatform oddDisk
    (oddPath "manifest.json".toList) = .ok oddManifest := by
  have hfile : readFile oddDisk (oddPath "manifest.json".toList) = .ok (ascii oddManifestText) := by
    rw [readFile, oddDisk, if_pos rfl]
    rfl
  have hparse : oddPlatform.parseManifest (ascii oddManifestText) = some oddManifest := by
    simp only [oddPlatform, if_true]
  rw [readFeatureCacheManifestFile, hfile, ok_bind]
  exact okOr_eq_ok.mpr hparse

theorem odd_read : readVerifiedFeatureCacheBundleAuxiliary oddPlatform oddDisk oddRoot oddOptions =
    .ok oddCache := by
  refine bind_eq_ok.mpr ⟨(), by decide +kernel, bind_eq_ok.mpr ⟨oddRoot, rfl,
    bind_eq_ok.mpr ⟨_, rfl, bind_eq_ok.mpr ⟨oddPath "manifest.json".toList, rfl,
      bind_eq_ok.mpr ⟨(), by decide +kernel, bind_eq_ok.mpr ⟨oddManifest, odd_manifest, ?_⟩⟩⟩⟩⟩⟩
  decide +kernel

/-- The reader accepts this cache, and nothing that the writer asks of the values holds. -/
theorem verified_cache_not_validated :
    readVerifiedFeatureCacheBundleAuxiliary oddPlatform oddDisk oddRoot oddOptions = .ok oddCache ∧
      ¬WriterInvariants oddPlatform oddDisk oddCache ∧
      ∃ data queries schema, data = cacheData oddDisk oddCache queries ∧
        readQueries oddPlatform (contentOf oddDisk oddCache.paths.queriesJsonl) = some queries ∧
        oddPlatform.parseSchema (contentOf oddDisk oddCache.paths.featureSchema) = some schema ∧
        (data.groups.map UInt32.toNat).sum ≠ data.rowIds.length ∧
        data.groups.length ≠ data.queries.length ∧
        (∀ label ∈ data.labels, label.isFinite = false) ∧ data.labels ≠ [] ∧
        (∀ value ∈ data.features, value.isFinite = false) ∧ data.features ≠ [] ∧
        schema.featureNames ≠ oddCache.manifest.featureNames := by
  have hqueries : readQueries oddPlatform (contentOf oddDisk oddCache.paths.queriesJsonl) =
      some [] := by decide +kernel
  refine ⟨odd_read, ?_, cacheData oddDisk oddCache [], [], ⟨featureCacheSchemaVersion,
    ["other".toList], [], false⟩, rfl, hqueries, ?_⟩
  · rintro ⟨queries, schema, hread, -, hvalid, -⟩
    obtain rfl := Option.some.inj (hqueries.symm.trans hread)
    have hrejected : validateData (cacheData oddDisk oddCache []) =
        .error (.invalid (.groupCount 1 0)) := by decide +kernel
    exact nomatch hrejected.symm.trans hvalid
  · decide +kernel

theorem odd_read_shape : ManifestShape oddManifest ∧
    (∀ file, Matches oddPlatform oddDisk (oddManifest.files.descriptor file) file
      (oddCache.paths.path file)) ∧
    ∀ queries, CacheArrays oddDisk oddCache (cacheData oddDisk oddCache queries) ∧
      (validateData (cacheData oddDisk oddCache queries) = .ok () ↔
        queries.length = 1 ∧
        ((cacheData oddDisk oddCache queries).groups.map UInt32.toNat).sum = 1 ∧
        (∀ value ∈ (cacheData oddDisk oddCache queries).features, value.isFinite) ∧
        ∀ label ∈ (cacheData oddDisk oddCache queries).labels, label.isFinite) :=
  read_verified_shape odd_read

end OrdinalDB.Ltr
