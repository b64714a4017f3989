import OrdinalDB.Lib.Durable
import OrdinalDB.Ltr.VerifiedCache

/-!
# Writing a feature cache

`write_feature_cache` of `ordinaldb-ltr/src/lib.rs`: the checked data, file by file, each created
new, and then the manifest that describes them. A run may be cut between any two system calls, and
buffered contents arrive piece by piece. A write to an open file does not fail: a `BufWriter` that is
dropped would swallow the error of its last write.

* `write_feature_cache_cut`: whatever ends the run, nothing that existed has changed, and a
  manifest stands only beside eight complete files.
* `write_feature_cache_read`: a cache that was written and attached is read as verified, and its
  files hold the data.
-/

namespace OrdinalDB.Ltr

open ByteCodec Durable Durable.Prog Float32Bits Outcome

/-! ## What is written -/

/-- The data of a cache, with what `validate_data` does not look at. -/
structure CacheInput (Value : Type) extends FeatureCacheData where
  split : Value
  provenance : Value
  labelKind : Name
  qrelsSourceSha256 : Option Name
  bundleManifestSha256 : Option Name
  forbiddenFeaturesPresent : List Name
  denseFeaturesPresent : Bool

/-- `FeatureCacheManifest` with all its fields. -/
structure WrittenManifest extends FeatureCacheManifest where
  labelKind : Name
  qrelsSourceSha256 : Option Name
  bundleManifestSha256 : Option Name
  forbiddenFeaturesPresent : List Name
  denseFeaturesPresent : Bool

/-- `serde_json`, and how a `BufWriter` passes contents on. -/
structure Writers (Value : Type) where
  schema : FeatureSchemaRecord → Bytes
  query : QueryCacheRecord → Bytes
  value : Value → Bytes
  manifest : WrittenManifest → Bytes
  pieces : Bytes → List Bytes
  flatten_pieces : ∀ content, (pieces content).flatten = content

variable {Value : Type}

/-- The record of `feature_schema.json`. -/
def CacheInput.schema (input : CacheInput Value) : FeatureSchemaRecord :=
  ⟨featureCacheSchemaVersion, input.featureNames, input.forbiddenFeaturesPresent,
    input.denseFeaturesPresent⟩

/-- `write_json`, `write_queries` and the writers of arrays, by what they write. -/
def fileContent (writers : Writers Value) (input : CacheInput Value) : CacheFile → Bytes
  | .featureSchema => writers.schema input.schema ++ [10]
  | .groups => u32File input.groups
  | .rowIds => u64File input.rowIds
  | .labels => f32File input.labels
  | .features => f32File input.features
  | .queries => input.queries.flatMap fun query => writers.query query ++ [10]
  | .split => writers.value input.split ++ [10]
  | .provenance => writers.value input.provenance ++ [10]

/-! ## Steps -/

/-- `create_new`, which follows no symlink and truncates nothing. -/
def createFeatureCacheFile (path : AbsPath) : Prog Disk Unit := step fun disk =>
  match disk path with
  | none => (some (), Function.update disk path (some (.file [])))
  | some _ => (none, disk)

/-- A write to the open file, which has room for it. -/
def append (path : AbsPath) (piece : Bytes) : Prog Disk Unit := step fun disk =>
  match disk path with
  | some (.file content) => (some (), Function.update disk path (some (.file (content ++ piece))))
  | _ => (none, disk)

def writeFile (writers : Writers Value) (path : AbsPath) (content : Bytes) : Prog Disk Unit := do
  createFeatureCacheFile path
  (writers.pieces content).forM (append path)

/-- One directory of `create_dir_all`; a symlink may lead to a directory. -/
def createDir (path : AbsPath) : Prog Disk Unit := step fun disk =>
  match disk path with
  | none => (some (), Function.update disk path (some .directory))
  | some (.file _) => (none, disk)
  | some _ => (some (), disk)

def createDirAll (root : AbsPath) : Prog Disk Unit := root.inits.forM createDir

/-- `describe`. -/
def describeFile (platform : Platform) (root : AbsPath) (file : CacheFile) :
    Prog Disk ArtifactDescriptor := Prog.read fun disk =>
  match disk (root ++ [file.name]) with
  | some (.file content) =>
    some ⟨file.name, platform.sha256 content, UInt64.ofNat content.length⟩
  | _ => none

/-- `MANIFEST_FILE`. -/
def manifestFile : Name := "manifest.json".toList

/-- The manifest over the descriptors; counts are `usize`. -/
def CacheInput.manifest (input : CacheInput Value) (files : FeatureCacheFiles) :
    WrittenManifest where
  schemaVersion := featureCacheSchemaVersion
  featureNames := input.featureNames
  queryCount := UInt64.ofNat input.queries.length
  rowCount := UInt64.ofNat input.rowIds.length
  groupCount := UInt64.ofNat input.groups.length
  files
  labelKind := input.labelKind
  qrelsSourceSha256 := input.qrelsSourceSha256
  bundleManifestSha256 := input.bundleManifestSha256
  forbiddenFeaturesPresent := input.forbiddenFeaturesPresent
  denseFeaturesPresent := input.denseFeaturesPresent

/-- The descriptors of `FeatureCacheFiles`, in the order of its fields. -/
def describeFiles (platform : Platform) (root : AbsPath) : Prog Disk FeatureCacheFiles := do
  let featureSchema ← describeFile platform root .featureSchema
  let groupsU32 ← describeFile platform root .groups
  let rowIdsU64 ← describeFile platform root .rowIds
  let labelsF32 ← describeFile platform root .labels
  let featuresF32 ← describeFile platform root .features
  let queriesJsonl ← describeFile platform root .queries
  let splitJson ← describeFile platform root .split
  let provenanceJson ← describeFile platform root .provenance
  pure { featureSchema, groupsU32, rowIdsU64, labelsF32, featuresF32, queriesJsonl, splitJson,
         provenanceJson }

/-- `write_feature_cache`; which error it returns is left out. -/
def writeFeatureCache (platform : Platform) (writers : Writers Value) (root : AbsPath)
    (input : CacheInput Value) : Prog Disk WrittenManifest := do
  Prog.read fun _ => (validateData input.toFeatureCacheData).toOption
  createDirAll root
  Prog.read fun disk => (rejectExistingSymlinkPath disk root).toOption
  CacheFile.all.forM fun file =>
    writeFile writers (root ++ [file.name]) (fileContent writers input file)
  let files ← describeFiles platform root
  writeFile writers (root ++ [manifestFile]) (writers.manifest (input.manifest files) ++ [10])
  pure (input.manifest files)

/-! ## Files that are written -/

section Steps

variable {writers : Writers Value} {disk after : Disk} {path : AbsPath} {content : Bytes}

/-- The disk with a file. -/
def put (disk : Disk) (path : AbsPath) (content : Bytes) : Disk :=
  Function.update disk path (some (.file content))

theorem put_self : put disk path content path = some (.file content) :=
  Function.update_self ..

theorem put_of_ne {other : AbsPath} (h : other ≠ path) : put disk path content other = disk other :=
  Function.update_of_ne h ..

theorem put_put {first : Bytes} : put (put disk path first) path content = put disk path content :=
  Function.update_idem ..

theorem append_put {piece : Bytes} :
    append path piece (put disk path content) =
      ⟨[put disk path content], some (), put disk path (content ++ piece)⟩ := by
  unfold append step
  simp only [put_self]
  exact congrArg (Effect.mk _ _) put_put

theorem appends_put {pieces : List Bytes} {content : Bytes} :
    (Returns (pieces.forM (append path)) (put disk path content) () after ↔
      after = put disk path (content ++ pieces.flatten)) ∧
    (Cut (pieces.forM (append path)) (put disk path content) after →
      ∃ part, part <+: pieces.flatten ∧ after = put disk path (content ++ part)) := by
  induction pieces generalizing content with
  | nil =>
    show (Returns (pure ()) _ () after ↔ _) ∧ (Cut (pure ()) _ after → _)
    rw [returns_pure, cut_pure, List.flatten_nil, List.append_nil]
    exact ⟨⟨fun h => h.2.symm, fun h => ⟨rfl, h.symm⟩⟩,
      fun h => ⟨[], List.nil_prefix, by rw [h, List.append_nil]⟩⟩
  | cons piece pieces ih =>
    show (Returns (append path piece >>= fun _ => pieces.forM (append path)) _ () after ↔ _) ∧
      (Cut (append path piece >>= fun _ => pieces.forM (append path)) _ after → _)
    have hfirst : ∀ t, Returns (append path piece) (put disk path content) () t ↔
        t = put disk path (content ++ piece) := by
      intro t
      unfold Returns
      rw [append_put]
      exact ⟨fun h => h.2.symm, fun h => ⟨rfl, h.symm⟩⟩
    rw [List.flatten_cons, ← List.append_assoc]
    constructor
    · rw [returns_bind]
      constructor
      · rintro ⟨⟨⟩, t, ht, hrest⟩
        rw [(hfirst t).mp ht] at hrest
        exact ih.1.mp hrest
      · exact fun h => ⟨(), _, (hfirst _).mpr rfl, ih.1.mpr h⟩
    · intro hcut
      rcases cut_bind hcut with hcut | ⟨⟨⟩, t, ht, hrest⟩
      · unfold Cut at hcut
        rw [append_put, List.mem_singleton] at hcut
        rcases hcut with rfl | rfl
        · exact ⟨[], List.nil_prefix, by rw [List.append_nil]⟩
        · exact ⟨piece, List.prefix_append _ _, rfl⟩
      · rw [(hfirst t).mp ht] at hrest
        obtain ⟨part, hpart, rfl⟩ := ih.2 hrest
        exact ⟨piece ++ part, (List.prefix_append_right_inj _).mpr hpart,
          by rw [List.append_assoc]⟩

/-- A file is written only where nothing stands. -/
theorem returns_writeFile : Returns (writeFile writers path content) disk () after ↔
    disk path = none ∧ after = put disk path content := by
  unfold writeFile
  rw [returns_bind]
  constructor
  · rintro ⟨⟨⟩, t, hcreate, hrest⟩
    rw [createFeatureCacheFile, returns_step] at hcreate
    split at hcreate
    next hfree =>
      obtain rfl := (Prod.mk.inj hcreate).2
      have hpieces := appends_put.1.mp hrest
      rw [List.nil_append, writers.flatten_pieces] at hpieces
      exact ⟨hfree, hpieces⟩
    next => cases (Prod.mk.inj hcreate).1
  · rintro ⟨hfree, rfl⟩
    refine ⟨(), put disk path [], ?_, appends_put.1.mpr ?_⟩
    · rw [createFeatureCacheFile, returns_step, hfree]
      rfl
    · rw [List.nil_append, writers.flatten_pieces]

/-- A cut leaves the disk, or a part of the content in a new file. -/
theorem cut_writeFile (h : Cut (writeFile writers path content) disk after) :
    after = disk ∨ disk path = none ∧ ∃ part, part <+: content ∧ after = put disk path part := by
  unfold writeFile at h
  rcases cut_bind h with hcreate | ⟨⟨⟩, t, hcreate, hrest⟩
  · rw [createFeatureCacheFile, cut_step] at hcreate
    split at hcreate
    next hfree =>
      rcases hcreate with rfl | rfl
      · exact .inl rfl
      · exact .inr ⟨hfree, [], List.nil_prefix, rfl⟩
    next => exact .inl (hcreate.elim id id)
  · rw [createFeatureCacheFile, returns_step] at hcreate
    split at hcreate
    next hfree =>
      obtain rfl := (Prod.mk.inj hcreate).2
      obtain ⟨part, hpart, rfl⟩ := appends_put.2 hrest
      rw [writers.flatten_pieces] at hpart
      exact .inr ⟨hfree, part, hpart, rfl⟩
    next => cases (Prod.mk.inj hcreate).1

end Steps

/-! ## All files -/

section Files

variable {writers : Writers Value} {root : AbsPath} {names : CacheFile → Name}
  {content : CacheFile → Bytes} {disk after : Disk} {files : List CacheFile}

/-- The disk with the given files of the cache. -/
def putAll (root : AbsPath) (content : CacheFile → Bytes) (disk : Disk)
    (files : List CacheFile) : Disk :=
  files.foldl (fun disk file => put disk (root ++ [file.name]) (content file)) disk

theorem name_injective : Function.Injective CacheFile.name := by
  intro file other h
  cases file <;> cases other <;> first | rfl | exact absurd h (by decide)

theorem filePath_ne {file other : CacheFile} (h : file ≠ other) :
    root ++ [file.name] ≠ root ++ [other.name] := by
  intro hsame
  exact h (name_injective (List.singleton_inj.mp (List.append_cancel_left hsame)))

/-- What stands at a path: the last file written there, or what stood there. -/
theorem putAll_of_ne {path : AbsPath} (h : ∀ file ∈ files, path ≠ root ++ [file.name]) :
    putAll root content disk files path = disk path := by
  induction files generalizing disk with
  | nil => rfl
  | cons file files ih =>
    obtain ⟨hfirst, hrest⟩ := List.forall_mem_cons.mp h
    exact (ih hrest).trans (put_of_ne hfirst)

theorem putAll_self {file : CacheFile} (hnodup : files.Nodup) (h : file ∈ files) :
    putAll root content disk files (root ++ [file.name]) = some (.file (content file)) := by
  induction files generalizing disk with
  | nil => cases h
  | cons first files ih =>
    obtain ⟨hfirst, hnodup⟩ := List.nodup_cons.mp hnodup
    rcases List.mem_cons.mp h with rfl | h
    · show putAll root content (put disk (root ++ [file.name]) (content file)) files _ = _
      rw [putAll_of_ne fun other hother => filePath_ne fun heq => hfirst (by rwa [heq]), put_self]
    · exact ih hnodup h

theorem returns_writeFiles (hnodup : files.Nodup) :
    Returns (files.forM fun file => writeFile writers (root ++ [file.name]) (content file)) disk ()
      after ↔ (∀ file ∈ files, disk (root ++ [file.name]) = none) ∧
        after = putAll root content disk files := by
  induction files generalizing disk with
  | nil =>
    show Returns (pure ()) disk () after ↔ _
    rw [returns_pure]
    exact ⟨fun h => ⟨nofun, h.2.symm⟩, fun h => ⟨rfl, h.2.symm⟩⟩
  | cons file files ih =>
    obtain ⟨hfirst, hnodup⟩ := List.nodup_cons.mp hnodup
    show Returns (writeFile writers (root ++ [file.name]) (content file) >>= fun _ =>
      files.forM fun file => writeFile writers (root ++ [file.name]) (content file)) disk () after ↔ _
    have hother : ∀ other ∈ files, put disk (root ++ [file.name]) (content file)
        (root ++ [other.name]) = disk (root ++ [other.name]) := fun other hmem =>
      put_of_ne (filePath_ne fun heq => hfirst (heq ▸ hmem))
    rw [returns_bind, List.forall_mem_cons]
    constructor
    · rintro ⟨⟨⟩, t, hwritten, hrest⟩
      obtain ⟨hfree, rfl⟩ := returns_writeFile.mp hwritten
      obtain ⟨hrestFree, rfl⟩ := (ih hnodup).mp hrest
      exact ⟨⟨hfree, fun other hmem => hother other hmem ▸ hrestFree other hmem⟩, rfl⟩
    · rintro ⟨⟨hfree, hrestFree⟩, rfl⟩
      refine ⟨(), _, returns_writeFile.mpr ⟨hfree, rfl⟩, (ih hnodup).mpr ⟨fun other hmem => ?_, rfl⟩⟩
      rw [hother other hmem]
      exact hrestFree other hmem

/-- A path holds what it held, or a part of a file of the cache where nothing was. -/
def Partly (root : AbsPath) (content : CacheFile → Bytes) (disk after : Disk) : Prop :=
  ∀ path, after path = disk path ∨ disk path = none ∧ ∃ file part, path = root ++ [file.name] ∧
    part <+: content file ∧ after path = some (.file part)

theorem cut_writeFiles
    (h : Cut (files.forM fun file => writeFile writers (root ++ [file.name]) (content file)) disk
      after) : Partly root content disk after := by
  induction files generalizing disk with
  | nil =>
    have hsame : after = disk := cut_pure.mp h
    exact fun path => .inl (hsame ▸ rfl)
  | cons file files ih =>
    rcases cut_bind (q := fun _ => files.forM fun file =>
      writeFile writers (root ++ [file.name]) (content file)) h with hfirst | ⟨⟨⟩, t, hfirst, hrest⟩
    · rcases cut_writeFile hfirst with rfl | ⟨hfree, part, hpart, rfl⟩
      · exact fun path => .inl rfl
      · intro path
        by_cases hpath : path = root ++ [file.name]
        · subst hpath
          exact .inr ⟨hfree, file, part, rfl, hpart, put_self⟩
        · exact .inl (put_of_ne hpath)
    · obtain ⟨hfree, rfl⟩ := returns_writeFile.mp hfirst
      intro path
      rcases ih hrest path with hsame | ⟨hnone, hpart⟩
      · by_cases hpath : path = root ++ [file.name]
        · subst hpath
          rw [put_self] at hsame
          exact .inr ⟨hfree, file, _, rfl, List.prefix_refl _, hsame⟩
        · exact .inl (hsame.trans (put_of_ne hpath))
      · by_cases hpath : path = root ++ [file.name]
        · rw [hpath, put_self] at hnone
          cases hnone
        · exact .inr ⟨(put_of_ne hpath).symm.trans hnone, hpart⟩

end Files

/-! ## Directories -/

section Directories

variable {disk after : Disk} {root : AbsPath} {paths : List AbsPath}

/-- Only directories have been added, on the way to the root. -/
def Directories (root : AbsPath) (disk after : Disk) : Prop :=
  ∀ path, after path = disk path ∨
    disk path = none ∧ path <+: root ∧ after path = some .directory

theorem directories_refl : Directories root disk disk := fun _ => .inl rfl

/-- What stood keeps standing. -/
theorem Directories.kept (h : Directories root disk after) {path : AbsPath} {node : Node}
    (hnode : disk path = some node) : after path = some node := by
  rcases h path with hsame | ⟨hnone, -⟩
  · exact hsame.trans hnode
  · rw [hnode] at hnone
    cases hnone

theorem Directories.step (h : Directories root disk after) {path : AbsPath} (hpath : path <+: root)
    (hfree : after path = none) :
    Directories root disk (Function.update after path (some .directory)) := by
  intro other
  by_cases hother : other = path
  · subst hother
    have hnone : disk other = none := by
      by_contra hsome
      obtain ⟨node, hnode⟩ := Option.ne_none_iff_exists'.mp hsome
      rw [h.kept hnode] at hfree
      cases hfree
    exact .inr ⟨hnone, hpath, Function.update_self ..⟩
  · rw [Function.update_of_ne hother]
    exact h other

theorem directories_createDirAll (root : AbsPath) (disk : Disk) :
    Triple (Directories root disk) (createDirAll root) (fun _ => Directories root disk)
      (Directories root disk) := by
  refine Triple.forM fun path hpath => Triple.step fun after hafter => ?_
  have hpre := (List.mem_inits path root).mp hpath
  split
  next hfree => exact ⟨hafter, hafter.step hpre hfree, fun _ _ => hafter.step hpre hfree⟩
  next => exact ⟨hafter, hafter, fun _ h => by cases h⟩
  next => exact ⟨hafter, hafter, fun _ _ => hafter⟩

/-- No file of the cache is on the way to its root. -/
theorem not_prefix {name : Name} : ¬root ++ [name] <+: root := by
  intro h
  have := h.length_le
  rw [List.length_append, List.length_singleton] at this
  omega

theorem Directories.file (h : Directories root disk after) (name : Name) :
    after (root ++ [name]) = disk (root ++ [name]) :=
  (h _).resolve_right fun hadded => not_prefix hadded.2.1

end Directories

/-! ## Runs -/

section Runs

variable {platform : Platform} {writers : Writers Value} {root : AbsPath}
  {input : CacheInput Value} {disk after : Disk} {manifest : WrittenManifest}

/-- The descriptor of a file. -/
def descriptorOf (platform : Platform) (content : CacheFile → Bytes) (file : CacheFile) :
    ArtifactDescriptor :=
  ⟨file.name, platform.sha256 (content file), UInt64.ofNat (content file).length⟩

/-- The descriptors of the files that are written. -/
def descriptors (platform : Platform) (content : CacheFile → Bytes) : FeatureCacheFiles where
  featureSchema := descriptorOf platform content .featureSchema
  groupsU32 := descriptorOf platform content .groups
  rowIdsU64 := descriptorOf platform content .rowIds
  labelsF32 := descriptorOf platform content .labels
  featuresF32 := descriptorOf platform content .features
  queriesJsonl := descriptorOf platform content .queries
  splitJson := descriptorOf platform content .split
  provenanceJson := descriptorOf platform content .provenance

theorem returns_describeFiles {content : CacheFile → Bytes} {files : FeatureCacheFiles}
    (hdisk : ∀ file : CacheFile, disk (root ++ [file.name]) = some (.file (content file))) :
    Returns (describeFiles platform root) disk files after ↔
      descriptors platform content = files ∧ disk = after := by
  have hfile : ∀ file descriptor t, Returns (describeFile platform root file) disk descriptor t ↔
      descriptorOf platform content file = descriptor ∧ disk = t := by
    intro file descriptor t
    rw [describeFile, returns_read, hdisk file]
    exact and_congr_left fun _ => Option.some_inj
  constructor
  · intro h
    unfold describeFiles at h
    simp only [returns_bind, returns_pure] at h
    obtain ⟨_, _, h1, _, _, h2, _, _, h3, _, _, h4, _, _, h5, _, _, h6, _, _, h7, _, _, h8, h⟩ := h
    obtain ⟨rfl, rfl⟩ := (hfile _ _ _).mp h1
    obtain ⟨rfl, rfl⟩ := (hfile _ _ _).mp h2
    obtain ⟨rfl, rfl⟩ := (hfile _ _ _).mp h3
    obtain ⟨rfl, rfl⟩ := (hfile _ _ _).mp h4
    obtain ⟨rfl, rfl⟩ := (hfile _ _ _).mp h5
    obtain ⟨rfl, rfl⟩ := (hfile _ _ _).mp h6
    obtain ⟨rfl, rfl⟩ := (hfile _ _ _).mp h7
    obtain ⟨rfl, rfl⟩ := (hfile _ _ _).mp h8
    exact h
  · rintro ⟨rfl, rfl⟩
    have hnext : ∀ file, Returns (describeFile platform root file) disk
        (descriptorOf platform content file) disk := fun file => (hfile _ _ _).mpr ⟨rfl, rfl⟩
    exact (hnext _).bind ((hnext _).bind ((hnext _).bind ((hnext _).bind ((hnext _).bind
      ((hnext _).bind ((hnext _).bind ((hnext _).bind (returns_pure.mpr ⟨rfl, rfl⟩))))))))

/-- The checks and the directories in front of the files. -/
structure Prepared (root : AbsPath) (input : CacheInput Value) (disk prepared : Disk) : Prop where
  valid : validateData input.toFeatureCacheData = .ok ()
  directories : Directories root disk prepared

/-- The part of a run behind the checks of the data and of the root. -/
def writeFiles (platform : Platform) (writers : Writers Value) (root : AbsPath)
    (input : CacheInput Value) : Prog Disk WrittenManifest := do
  CacheFile.all.forM fun file =>
    writeFile writers (root ++ [file.name]) (fileContent writers input file)
  let files ← describeFiles platform root
  writeFile writers (root ++ [manifestFile]) (writers.manifest (input.manifest files) ++ [10])
  pure (input.manifest files)

theorem writeFeatureCache_eq : writeFeatureCache platform writers root input =
    (Prog.read fun _ => (validateData input.toFeatureCacheData).toOption) >>= fun _ =>
      createDirAll root >>= fun _ =>
        (Prog.read fun disk => (rejectExistingSymlinkPath disk root).toOption) >>= fun _ =>
          writeFiles platform writers root input := rfl

theorem toOption_eq_some {α : Type} {result : CacheResult α} {a : α} :
    result.toOption = some a ↔ result = .ok a := by
  cases result <;> simp [Except.toOption]

/-- A cut in front of the files, or behind the preparations. -/
theorem cut_prepared (h : Cut (writeFeatureCache platform writers root input) disk after) :
    Directories root disk after ∨ ∃ prepared, Prepared root input disk prepared ∧
      Cut (writeFiles platform writers root input) prepared after := by
  rw [writeFeatureCache_eq] at h
  rcases cut_bind h with hcut | ⟨⟨⟩, first, hchecked, h⟩
  · rw [cut_read] at hcut
    exact .inl (hcut ▸ directories_refl)
  obtain ⟨hvalid, rfl⟩ := returns_read.mp hchecked
  have hdirectories := directories_createDirAll root disk
  rcases cut_bind h with hcut | ⟨⟨⟩, prepared, hcreated, h⟩
  · exact .inl (hdirectories.cuts _ _ directories_refl hcut)
  have hprepared := hdirectories.returns _ _ _ directories_refl hcreated
  rcases cut_bind h with hcut | ⟨⟨⟩, same, hroot, h⟩
  · rw [cut_read] at hcut
    exact .inl (hcut ▸ hprepared)
  · obtain ⟨-, rfl⟩ := returns_read.mp hroot
    exact .inr ⟨prepared, ⟨toOption_eq_some.mp hvalid, hprepared⟩, h⟩

theorem returns_prepared
    (h : Returns (writeFeatureCache platform writers root input) disk manifest after) :
    ∃ prepared, Prepared root input disk prepared ∧ prepared root ≠ some .symlink ∧
      Returns (writeFiles platform writers root input) prepared manifest after := by
  rw [writeFeatureCache_eq, returns_bind] at h
  obtain ⟨⟨⟩, _, hchecked, h⟩ := h
  obtain ⟨hvalid, rfl⟩ := returns_read.mp hchecked
  obtain ⟨⟨⟩, prepared, hcreated, h⟩ := returns_bind.mp h
  obtain ⟨⟨⟩, _, hlooked, h⟩ := returns_bind.mp h
  obtain ⟨hroot, rfl⟩ := returns_read.mp hlooked
  refine ⟨prepared, ⟨toOption_eq_some.mp hvalid,
    (directories_createDirAll root disk).returns _ _ _ directories_refl hcreated⟩, ?_, h⟩
  exact reject_eq_ok.mp (toOption_eq_some.mp hroot)

/-- The contents, with those of the manifest. -/
theorem all_files_written (prepared : Disk) (file : CacheFile) :
    putAll root (fileContent writers input) prepared CacheFile.all (root ++ [file.name]) =
      some (.file (fileContent writers input file)) :=
  putAll_self (by decide) file.mem_all

/-- The manifest of a run that goes through. -/
def finalManifest (platform : Platform) (writers : Writers Value) (input : CacheInput Value) :
    WrittenManifest := input.manifest (descriptors platform (fileContent writers input))

theorem returns_writeFiles_iff {prepared : Disk} :
    Returns (writeFiles platform writers root input) prepared manifest after ↔
      (∀ file : CacheFile, prepared (root ++ [file.name]) = none) ∧
        prepared (root ++ [manifestFile]) = none ∧
        finalManifest platform writers input = manifest ∧
        after = put (putAll root (fileContent writers input) prepared CacheFile.all)
          (root ++ [manifestFile])
          (writers.manifest (finalManifest platform writers input) ++ [10]) := by
  have hmanifest : putAll root (fileContent writers input) prepared CacheFile.all
      (root ++ [manifestFile]) = prepared (root ++ [manifestFile]) := by
    refine putAll_of_ne fun file _ hsame => ?_
    have hname := List.singleton_inj.mp (List.append_cancel_left hsame)
    revert hname
    cases file <;> decide
  unfold writeFiles
  rw [returns_bind]
  constructor
  · rintro ⟨⟨⟩, _, hwritten, h⟩
    obtain ⟨hfree, rfl⟩ := (returns_writeFiles (by decide)).mp hwritten
    obtain ⟨files, _, hfiles, h⟩ := returns_bind.mp h
    obtain ⟨rfl, rfl⟩ := (returns_describeFiles (all_files_written prepared)).mp hfiles
    obtain ⟨⟨⟩, _, hlast, h⟩ := returns_bind.mp h
    obtain ⟨hmissing, rfl⟩ := returns_writeFile.mp hlast
    obtain ⟨rfl, rfl⟩ := returns_pure.mp h
    exact ⟨fun file => hfree file file.mem_all, hmanifest ▸ hmissing, rfl, rfl⟩
  · rintro ⟨hfree, hmissing, rfl, rfl⟩
    refine ((returns_writeFiles (by decide)).mpr ⟨fun file _ => hfree file, rfl⟩).bind ?_ |>
      fun h => returns_bind.mp h
    exact ((returns_describeFiles (all_files_written prepared)).mpr ⟨rfl, rfl⟩).bind
      ((returns_writeFile.mpr ⟨hmanifest.trans hmissing, rfl⟩).bind
        (returns_pure.mpr ⟨rfl, rfl⟩))

theorem manifest_ne (file : CacheFile) : root ++ [file.name] ≠ root ++ [manifestFile] := by
  intro hsame
  have hname := List.singleton_inj.mp (List.append_cancel_left hsame)
  revert hname
  cases file <;> decide

theorem cut_describeFiles (h : Cut (describeFiles platform root) disk after) : after = disk := by
  have hread : ∀ file, Triple (· = disk) (describeFile platform root file)
      (fun _ state => state = disk) (· = disk) := fun file =>
    Triple.read (fun _ _ hstate _ => hstate) fun _ hstate => hstate
  have htriple : Triple (· = disk) (describeFiles platform root) (fun _ state => state = disk)
      (· = disk) :=
    (hread _).bind fun _ => (hread _).bind fun _ => (hread _).bind fun _ => (hread _).bind fun _ =>
      (hread _).bind fun _ => (hread _).bind fun _ => (hread _).bind fun _ =>
        (hread _).bind fun _ => Triple.pure fun _ hstate => ⟨hstate, hstate⟩
  exact htriple.cuts disk after rfl h

/-- A cut among the files, or with all of them and a part of the manifest. -/
theorem cut_writeFiles_cases {prepared : Disk}
    (h : Cut (writeFiles platform writers root input) prepared after) :
    Partly root (fileContent writers input) prepared after ∧
        after (root ++ [manifestFile]) = prepared (root ++ [manifestFile]) ∨
      prepared (root ++ [manifestFile]) = none ∧ ∃ part,
        part <+: writers.manifest (finalManifest platform writers input) ++ [10] ∧
        Partly root (fileContent writers input) prepared
          (putAll root (fileContent writers input) prepared CacheFile.all) ∧
        after = put (putAll root (fileContent writers input) prepared CacheFile.all)
          (root ++ [manifestFile]) part := by
  have hmanifest : ∀ after, Partly root (fileContent writers input) prepared after →
      after (root ++ [manifestFile]) = prepared (root ++ [manifestFile]) := by
    intro after hpartly
    refine (hpartly _).resolve_right ?_
    rintro ⟨-, file, _, hsame, -⟩
    exact manifest_ne file hsame.symm
  unfold writeFiles at h
  rcases cut_bind h with hcut | ⟨⟨⟩, _, hwritten, h⟩
  · exact .inl ⟨cut_writeFiles hcut, hmanifest _ (cut_writeFiles hcut)⟩
  have hall := cut_writeFiles hwritten.cut
  obtain ⟨-, rfl⟩ := (returns_writeFiles (by decide)).mp hwritten
  rcases cut_bind h with hcut | ⟨files, _, hfiles, h⟩
  · obtain rfl := cut_describeFiles hcut
    exact .inl ⟨hall, hmanifest _ hall⟩
  obtain ⟨rfl, rfl⟩ := (returns_describeFiles (all_files_written prepared)).mp hfiles
  have hlast : ∀ after, Cut (writeFile writers (root ++ [manifestFile])
      (writers.manifest (finalManifest platform writers input) ++ [10]))
        (putAll root (fileContent writers input) prepared CacheFile.all) after →
      after = putAll root (fileContent writers input) prepared CacheFile.all ∨
        prepared (root ++ [manifestFile]) = none ∧ ∃ part,
          part <+: writers.manifest (finalManifest platform writers input) ++ [10] ∧
          after = put (putAll root (fileContent writers input) prepared CacheFile.all)
            (root ++ [manifestFile]) part := by
    intro after hcut
    rcases cut_writeFile hcut with hsame | ⟨hfree, part, hpart, hafter⟩
    · exact .inl hsame
    · exact .inr ⟨(hmanifest _ hall).symm.trans hfree, part, hpart, hafter⟩
  have hend : after = putAll root (fileContent writers input) prepared CacheFile.all ∨
      prepared (root ++ [manifestFile]) = none ∧ ∃ part,
        part <+: writers.manifest (finalManifest platform writers input) ++ [10] ∧
        after = put (putAll root (fileContent writers input) prepared CacheFile.all)
          (root ++ [manifestFile]) part := by
    rcases cut_bind h with hcut | ⟨⟨⟩, _, hreturned, h⟩
    · exact hlast after hcut
    · rw [cut_pure.mp h]
      exact hlast _ hreturned.cut
  rcases hend with rfl | ⟨hfree, part, hpart, rfl⟩
  · exact .inl ⟨hall, hmanifest _ hall⟩
  · exact .inr ⟨hfree, part, hpart, hall, rfl⟩

/-- What a run that is cut anywhere has done. -/
structure Cautious (platform : Platform) (writers : Writers Value) (root : AbsPath)
    (input : CacheInput Value) (disk after : Disk) : Prop where
  kept : ∀ path node, disk path = some node → after path = some node
  added : ∀ path, disk path = none → after path ≠ none →
    path <+: root ∧ after path = some .directory ∨
    (∃ file part, path = root ++ [file.name] ∧ part <+: fileContent writers input file ∧
      after path = some (.file part)) ∨
    path = root ++ [manifestFile] ∧ ∃ part,
      part <+: writers.manifest (finalManifest platform writers input) ++ [10] ∧
      after path = some (.file part)
  /-- A manifest that is new stands beside complete files. -/
  last : disk (root ++ [manifestFile]) = none → after (root ++ [manifestFile]) ≠ none →
    ∀ file, after (root ++ [file.name]) = some (.file (fileContent writers input file))
  invalid : validateData input.toFeatureCacheData ≠ .ok () → after = disk

theorem Partly.kept {content : CacheFile → Bytes} (h : Partly root content disk after)
    {path : AbsPath} {node : Node} (hnode : disk path = some node) : after path = some node := by
  rcases h path with hsame | ⟨hnone, -⟩
  · exact hsame.trans hnode
  · rw [hnode] at hnone
    cases hnone

/-- What directories and then files have added. -/
theorem added_of_partly {prepared : Disk} {content : CacheFile → Bytes}
    (hdirectories : Directories root disk prepared) (h : Partly root content prepared after)
    {path : AbsPath} (hnew : disk path = none) (hafter : after path ≠ none) :
    path <+: root ∧ after path = some .directory ∨ ∃ file part, path = root ++ [file.name] ∧
      part <+: content file ∧ after path = some (.file part) := by
  rcases h path with hsame | ⟨-, hfile⟩
  · rcases hdirectories path with hold | ⟨-, hpre, hdirectory⟩
    · exact absurd (hsame.trans (hold.trans hnew)) hafter
    · exact .inl ⟨hpre, hsame.trans hdirectory⟩
  · exact .inr hfile

end Runs

/-- Wherever a run ends, by a crash, an error or normally, nothing that existed has changed, what is
new belongs to the cache, and the manifest has come last. -/
theorem write_feature_cache_cut (platform : Platform) (writers : Writers Value) (root : AbsPath)
    (input : CacheInput Value) (disk after : Disk)
    (h : Cut (writeFeatureCache platform writers root input) disk after) :
    Cautious platform writers root input disk after := by
  have hinvalid : validateData input.toFeatureCacheData ≠ .ok () → after = disk := by
    intro hbad
    rw [writeFeatureCache_eq] at h
    rcases cut_bind h with hcut | ⟨⟨⟩, _, hchecked, -⟩
    · exact cut_read.mp hcut
    · exact absurd (toOption_eq_some.mp (returns_read.mp hchecked).1) hbad
  rcases cut_prepared h with hdirectories | ⟨prepared, hprepared, hcut⟩
  · refine ⟨fun path node hnode => hdirectories.kept hnode, fun path hnew hafter => ?_,
      fun hmissing hafter => absurd ((hdirectories.file _).trans hmissing) hafter, hinvalid⟩
    rcases hdirectories path with hold | ⟨-, hpre, hdirectory⟩
    · exact absurd (hold.trans hnew) hafter
    · exact .inl ⟨hpre, hdirectory⟩
  have hdirectories := hprepared.directories
  rcases cut_writeFiles_cases hcut with ⟨hpartly, hmanifest⟩ | ⟨hfree, part, hpart, hall, rfl⟩
  · refine ⟨fun path node hnode => hpartly.kept (hdirectories.kept hnode),
      fun path hnew hafter => ?_, fun hmissing hafter => ?_, hinvalid⟩
    · exact (added_of_partly hdirectories hpartly hnew hafter).imp_right .inl
    · exact absurd (hmanifest.trans ((hdirectories.file _).trans hmissing)) hafter
  · refine ⟨fun path node hnode => ?_, fun path hnew hafter => ?_, fun _ _ file => ?_, hinvalid⟩
    · have hold := hdirectories.kept hnode
      rw [put_of_ne, hall.kept hold]
      rintro rfl
      rw [hfree] at hold
      cases hold
    · by_cases hpath : path = root ++ [manifestFile]
      · subst hpath
        exact .inr (.inr ⟨rfl, part, hpart, put_self⟩)
      · rw [put_of_ne hpath] at hafter ⊢
        exact (added_of_partly hdirectories hall hnew hafter).imp_right .inl
    · rw [put_of_ne (manifest_ne file)]
      exact all_files_written prepared file

/-! ## Paths that are read back -/

/-- A component that `normalize_bundle_relative_dir` leaves as it is. -/
structure Component (part : Name) : Prop where
  nonempty : part ≠ []
  notCurrent : part ≠ ['.']
  notParent : part ≠ "..".toList
  noSlash : '/' ∉ part

theorem not_mem_of_mem_splitOn {α : Type} [DecidableEq α] {a : α} {text part : List α}
    (h : part ∈ text.splitOn a) : a ∉ part := by
  induction text generalizing part with
  | nil =>
    rw [List.splitOn_nil, List.mem_singleton] at h
    rw [h]
    exact List.not_mem_nil
  | cons c text ih =>
    rw [List.splitOn_cons_eq_if_modifyHead] at h
    split at h
    next =>
      rcases List.mem_cons.mp h with rfl | h
      · exact List.not_mem_nil
      · exact ih h
    next hother =>
      obtain ⟨first, rest, hsplit⟩ := List.exists_cons_of_ne_nil (List.splitOn_ne_nil a text)
      rw [hsplit] at h ih
      rcases List.mem_cons.mp h with rfl | h
      · rw [List.mem_cons, not_or]
        exact ⟨fun heq => hother (by simp [heq]), ih List.mem_cons_self⟩
      · exact ih (List.mem_cons_of_mem _ h)

theorem component_of_normalize {path : Name} {dir : RelPath}
    (h : normalizeBundleRelativeDir path = some dir) :
    dir ≠ [] ∧ ∀ part ∈ dir, Component part := by
  simp only [normalizeBundleRelativeDir, Option.bind_eq_bind, Option.bind_eq_some_iff,
    Option.guard_eq_some', exists_const, Option.pure_def, Option.some.injEq] at h
  obtain ⟨-, ⟨hparent, hne⟩, rfl⟩ := h
  refine ⟨hne, fun part hpart => ?_⟩
  obtain ⟨hsplit, hkept⟩ := List.mem_filter.mp hpart
  rw [Bool.and_eq_true, decide_eq_true_eq, decide_eq_true_eq] at hkept
  exact ⟨hkept.1, hkept.2, fun heq => hparent (heq ▸ hpart), not_mem_of_mem_splitOn hsplit⟩

/-- A path of components is normalized to itself. -/
theorem normalize_intercalate {parts : RelPath} (hne : parts ≠ [])
    (h : ∀ part ∈ parts, Component part) :
    normalizeBundleRelativeDir (List.intercalate ['/'] parts) = some parts := by
  have hsplit : (List.intercalate ['/'] parts).splitOn '/' = parts :=
    List.splitOn_intercalate '/' (fun part hpart => (h part hpart).noSlash) hne
  have hfilter : parts.filter (fun part => part ≠ [] && part ≠ ['.']) = parts := by
    refine List.filter_eq_self.mpr fun part hpart => ?_
    rw [Bool.and_eq_true, decide_eq_true_eq, decide_eq_true_eq]
    exact ⟨(h part hpart).nonempty, (h part hpart).notCurrent⟩
  have hstart : List.intercalate ['/'] parts ≠ [] ∧
      (List.intercalate ['/'] parts).head? ≠ some '/' := by
    obtain ⟨first, rest, rfl⟩ := List.exists_cons_of_ne_nil hne
    have hfirst := h first List.mem_cons_self
    obtain ⟨c, text, rfl⟩ := List.exists_cons_of_ne_nil hfirst.nonempty
    have hslash : c ≠ '/' := fun heq => hfirst.noSlash (heq ▸ List.mem_cons_self)
    cases rest with
    | nil => simpa using hslash
    | cons second rest => simpa [List.intercalate_cons_cons] using hslash
  have hparent : "..".toList ∉ parts := fun hmem => (h _ hmem).notParent rfl
  unfold normalizeBundleRelativeDir
  simp only [hsplit, hfilter]
  rw [guard, if_pos hstart, guard, if_pos ⟨hparent, hne⟩]
  rfl

theorem component_name (file : CacheFile) : Component file.name := by
  cases file <;> exact ⟨by decide, by decide, by decide, by decide⟩

theorem component_manifest : Component manifestFile :=
  ⟨by decide, by decide, by decide, by decide⟩

/-! ## Reading back -/

section ReadBack

variable {platform : Platform} {writers : Writers Value} {bundle : AbsPath} {dir : RelPath}
  {input : CacheInput Value} {disk after : Disk} {manifest : WrittenManifest}

/-- `serde_json` reads what it has written of this input, and a query has no line break in it. -/
structure ReadsBack (platform : Platform) (writers : Writers Value) (input : CacheInput Value) :
    Prop where
  manifest : platform.parseManifest
      (writers.manifest (finalManifest platform writers input) ++ [10]) =
    some (finalManifest platform writers input).toFeatureCacheManifest
  schema : platform.parseSchema (writers.schema input.schema ++ [10]) = some input.schema
  query : ∀ query ∈ input.queries, platform.parseQuery (writers.query query) = some query
  line : ∀ query ∈ input.queries, 10 ∉ writers.query query ∧ writers.query query ≠ []

theorem lines_of_flatMap {lines : List Bytes} (h : ∀ line ∈ lines, 10 ∉ line ∧ line ≠ []) :
    ((lines.flatMap fun line => line ++ [10]).splitOn 10).filter (· ≠ []) = lines := by
  induction lines with
  | nil => rfl
  | cons line lines ih =>
    obtain ⟨⟨hbreak, hne⟩, hrest⟩ := List.forall_mem_cons.mp h
    rw [List.flatMap_cons, List.append_assoc, List.singleton_append,
      List.splitOn_append_cons_self_of_not_mem hbreak, List.filter_cons,
      if_pos (decide_eq_true hne), ih hrest]

theorem readQueries_eq (h : ReadsBack platform writers input) :
    readQueries platform (fileContent writers input .queries) = some input.queries := by
  have hlines := @lines_of_flatMap (input.queries.map writers.query) fun line hline => by
    obtain ⟨query, hquery, rfl⟩ := List.mem_map.mp hline
    exact h.line query hquery
  rw [List.flatMap_map] at hlines
  unfold readQueries
  show (((input.queries.flatMap fun query => writers.query query ++ [10]).splitOn 10).filter
    (· ≠ [])).mapM platform.parseQuery = _
  rw [hlines, Table.mapM_eq_some, List.map_map]
  exact List.map_congr_left h.query

/-- What a run that returns has written. -/
structure Written (platform : Platform) (writers : Writers Value) (root : AbsPath)
    (input : CacheInput Value) (disk after : Disk) : Prop where
  valid : validateData input.toFeatureCacheData = .ok ()
  files : ∀ file : CacheFile,
    after (root ++ [file.name]) = some (.file (fileContent writers input file))
  manifest : after (root ++ [manifestFile]) =
    some (.file (writers.manifest (finalManifest platform writers input) ++ [10]))
  symlinks : ∀ path, after path = some .symlink → disk path = some .symlink

theorem written_of_returns {root : AbsPath}
    (h : Returns (writeFeatureCache platform writers root input) disk manifest after) :
    finalManifest platform writers input = manifest ∧
      Written platform writers root input disk after := by
  obtain ⟨prepared, hprepared, -, h⟩ := returns_prepared h
  obtain ⟨-, -, rfl, rfl⟩ := returns_writeFiles_iff.mp h
  refine ⟨rfl, hprepared.valid, fun file => ?_, put_self, fun path hlink => ?_⟩
  · rw [put_of_ne (manifest_ne file)]
    exact all_files_written prepared file
  · by_cases hmanifest : path = root ++ [manifestFile]
    · rw [hmanifest, put_self] at hlink
      cases hlink
    rw [put_of_ne hmanifest] at hlink
    by_cases hfile : ∃ file : CacheFile, path = root ++ [file.name]
    · obtain ⟨file, rfl⟩ := hfile
      rw [all_files_written] at hlink
      cases hlink
    · rw [putAll_of_ne fun file _ hsame => hfile ⟨file, hsame⟩] at hlink
      rcases hprepared.directories path with hsame | ⟨-, -, hdirectory⟩
      · exact hsame.symm.trans hlink
      · rw [hdirectory] at hlink
        cases hlink

/-- The sizes that the manifest records. -/
theorem size_of_descriptor {content : CacheFile → Bytes} {file : CacheFile}
    (h : (content file).length < 2 ^ 64) :
    (descriptorOf platform content file).fileSizeBytes.toNat = (content file).length :=
  UInt64.toNat_ofNat_of_lt' h

theorem length_u32File (values : List UInt32) : (u32File values).length = values.length * 4 :=
  At.flatMap_length_eq (fun _ => le_length ..) values

theorem length_u64File (values : List UInt64) : (u64File values).length = values.length * 8 :=
  At.flatMap_length_eq (fun _ => le_length ..) values

theorem length_f32File (values : List F32) : (f32File values).length = values.length * 4 :=
  At.flatMap_length_eq (fun _ => le_length ..) values

/-- A table of values is read as the values. -/
theorem map_words_flatMap {β : Type} {w : Nat} (hw : 0 < w) {values : List β} {put : β → Nat}
    {get : Nat → β} (hlt : ∀ value, put value < 256 ^ w) (hget : ∀ value, get (put value) = value) :
    (words w (values.flatMap fun value => le w (put value))).map get = values := by
  have htable : values.flatMap (fun value => le w (put value)) = (values.map put).flatMap (le w) :=
    (List.flatMap_map ..).symm
  rw [htable, words_flatMap hw, List.map_map]
  · exact (List.map_congr_left fun value _ => hget value).trans (List.map_id _)
  · intro v hv
    obtain ⟨value, -, rfl⟩ := List.mem_map.mp hv
    exact hlt value

theorem words_u32File (values : List UInt32) :
    (words 4 (u32File values)).map UInt32.ofNat = values :=
  map_words_flatMap (by decide) (fun value => value.toNat_lt) fun _ => UInt32.ofNat_toNat

theorem words_u64File (values : List UInt64) :
    (words 8 (u64File values)).map UInt64.ofNat = values :=
  map_words_flatMap (by decide) (fun value => value.toNat_lt) fun _ => UInt64.ofNat_toNat

theorem words_f32File (values : List F32) :
    (words 4 (f32File values)).map (fun bits => (⟨UInt32.ofNat bits⟩ : F32)) = values :=
  map_words_flatMap (by decide) (fun value => value.bits.toNat_lt) fun value =>
    congrArg F32.mk UInt32.ofNat_toNat

theorem manifestShape_written (hvalid : validateData input.toFeatureCacheData = .ok ())
    (hsize : ∀ file, (fileContent writers input file).length < 2 ^ 64) :
    validateFeatureCacheManifestShape
      (finalManifest platform writers input).toFeatureCacheManifest = .ok () := by
  obtain ⟨hnames, hqueries, rowCount, ⟨hrows, -⟩, ⟨hrowIds, hlabels⟩, ⟨hvalues, hfeatures⟩, -⟩ :=
    validateData_eq_ok.mp hvalid
  have hgroupsSize : input.groups.length * 4 < 2 ^ 64 := by
    rw [← length_u32File]
    exact hsize .groups
  have hrowIdsSize : input.rowIds.length * 8 < 2 ^ 64 := by
    rw [← length_u64File]
    exact hsize .rowIds
  have hlabelsSize : input.labels.length * 4 < 2 ^ 64 := by
    rw [← length_f32File]
    exact hsize .labels
  have hfeaturesSize : input.features.length * 4 < 2 ^ 64 := by
    rw [← length_f32File]
    exact hsize .features
  have hgroupCount : (UInt64.ofNat input.groups.length).toNat = input.groups.length :=
    UInt64.toNat_ofNat_of_lt' (by show _ < 2 ^ 64; omega)
  have hrowCount : (UInt64.ofNat input.rowIds.length).toNat = input.rowIds.length :=
    UInt64.toNat_ofNat_of_lt' (by show _ < 2 ^ 64; omega)
  simp only [validateFeatureCacheManifestShape, bind_eq_ok, reject_eq_ok, exists_const,
    validateFeatureNames_eq_ok, okOr_eq_ok, checkedUsize_eq_some, checkedBytes_eq_ok, not_not]
  refine ⟨rfl, hnames, ?_, input.rowIds.length * input.featureNames.length, ?_, ?_, ?_, ?_, ?_⟩
  · show UInt64.ofNat input.queries.length = UInt64.ofNat input.groups.length
    rw [hqueries]
  · refine ⟨?_, ?_⟩
    · show (UInt64.ofNat input.rowIds.length).toNat * input.featureNames.length < 2 ^ 64
      rw [hrowCount, ← hrowIds]
      exact hvalues
    · show (UInt64.ofNat input.rowIds.length).toNat * input.featureNames.length = _
      rw [hrowCount]
  · show (UInt64.ofNat input.groups.length).toNat * 4 < 2 ^ 64 ∧
      (descriptorOf platform (fileContent writers input) .groups).fileSizeBytes.toNat =
        (UInt64.ofNat input.groups.length).toNat * 4
    rw [size_of_descriptor (hsize .groups), hgroupCount]
    exact ⟨hgroupsSize, length_u32File _⟩
  · show (UInt64.ofNat input.rowIds.length).toNat * 8 < 2 ^ 64 ∧
      (descriptorOf platform (fileContent writers input) .rowIds).fileSizeBytes.toNat =
        (UInt64.ofNat input.rowIds.length).toNat * 8
    rw [size_of_descriptor (hsize .rowIds), hrowCount]
    exact ⟨hrowIdsSize, length_u64File _⟩
  · show (UInt64.ofNat input.rowIds.length).toNat * 4 < 2 ^ 64 ∧
      (descriptorOf platform (fileContent writers input) .labels).fileSizeBytes.toNat =
        (UInt64.ofNat input.rowIds.length).toNat * 4
    rw [size_of_descriptor (hsize .labels), hrowCount, ← hrowIds, hlabels]
    exact ⟨hlabelsSize, length_f32File _⟩
  · show input.rowIds.length * input.featureNames.length * 4 < 2 ^ 64 ∧
      (descriptorOf platform (fileContent writers input) .features).fileSizeBytes.toNat =
        input.rowIds.length * input.featureNames.length * 4
    rw [size_of_descriptor (hsize .features), ← hrowIds, ← hfeatures]
    exact ⟨hfeaturesSize, length_f32File _⟩

/-- A path of components below the bundle, without symlinks on it. -/
theorem validateVerifiedBundlePath_ok {path : RelPath} (hne : path ≠ [])
    (hcomponents : ∀ part ∈ path, Component part)
    (hlinks : ∀ part, part <+: path → after (bundle ++ part) ≠ some .symlink) :
    validateVerifiedBundlePath after bundle (bundle ++ path) = .ok () := by
  simp only [validateVerifiedBundlePath, bind_eq_ok, reject_eq_ok, exists_const, okOr_eq_ok,
    List.drop_left, not_not]
  refine ⟨List.prefix_append _ _, path, normalize_intercalate hne hcomponents, ?_⟩
  refine forM_eq_ok.mpr fun part hpart => reject_eq_ok.mpr ?_
  exact hlinks part ((List.mem_inits part path).mp hpart)

/-- The paths of a cache that was read below a bundle. -/
def pathsBelow (root : AbsPath) : VerifiedFeatureCachePaths where
  featureSchema := root ++ [CacheFile.featureSchema.name]
  groupsU32 := root ++ [CacheFile.groups.name]
  rowIdsU64 := root ++ [CacheFile.rowIds.name]
  labelsF32 := root ++ [CacheFile.labels.name]
  featuresF32 := root ++ [CacheFile.features.name]
  queriesJsonl := root ++ [CacheFile.queries.name]
  splitJson := root ++ [CacheFile.split.name]
  provenanceJson := root ++ [CacheFile.provenance.name]

theorem path_pathsBelow (root : AbsPath) (file : CacheFile) :
    (pathsBelow root).path file = root ++ [file.name] := by
  cases file <;> rfl

theorem descriptor_descriptors (content : CacheFile → Bytes) (file : CacheFile) :
    (descriptors platform content).descriptor file = descriptorOf platform content file := by
  cases file <;> rfl

/-- The cache is attached to its bundle, nothing else has changed since it was written, and the
manifest verifies: `ordvec-manifest` then reports every declared artifact below the bundle. -/
structure Attached (platform : Platform) (bundle : AbsPath) (relativeDir : Name)
    (options : BundleFeatureCacheOptions) (written attached : Disk) : Prop where
  unchanged : ∀ path, path ≠ bundle ++ [manifestFile] → attached path = written path
  manifest : ∃ content, attached (bundle ++ [manifestFile]) = some (.file content)
  canonical : platform.canonicalize bundle = some bundle
  verified : ∃ plan, platform.verifyForLoad (bundle ++ [manifestFile])
      options.maxAuxiliaryArtifactBytes = some plan ∧
    ∀ entries, featureCacheAuxiliaryPaths relativeDir options.auxName = some entries →
      ∀ entry ∈ entries, plan entry.1 = some (bundle ++ entry.2)

/-- What a reader gets of a cache that was written below a bundle. -/
structure Recovered (platform : Platform) (writers : Writers Value) (input : CacheInput Value)
    (disk : Disk) (cache : VerifiedFeatureCache) : Prop where
  manifest : cache.manifest = (finalManifest platform writers input).toFeatureCacheManifest
  queries : readQueries platform (contentOf disk cache.paths.queriesJsonl) = some input.queries
  data : cacheData disk cache input.queries = input.toFeatureCacheData
  schema : platform.parseSchema (contentOf disk cache.paths.featureSchema) = some input.schema
  split : contentOf disk cache.paths.splitJson = writers.value input.split ++ [10]
  provenance : contentOf disk cache.paths.provenanceJson = writers.value input.provenance ++ [10]

theorem auxiliaryPaths_eq {relativeDir : Name} {options : BundleFeatureCacheOptions}
    (hname : validateAuxName options.auxName)
    (hdir : normalizeBundleRelativeDir relativeDir = some dir) :
    featureCacheAuxiliaryPaths relativeDir options.auxName =
      some (cacheFiles.map fun entry => (options.auxName ++ entry.1, dir ++ [entry.2])) := by
  unfold featureCacheAuxiliaryPaths
  rw [guard, if_pos hname, hdir]
  rfl

theorem mem_cacheFiles (file : CacheFile) : ('.' :: file.suffix, file.name) ∈ cacheFiles := by
  cases file <;> decide

end ReadBack

/-- A cache that was written and attached is read as verified, and its files hold the data. -/
theorem write_feature_cache_read (platform : Platform) (writers : Writers Value)
    (bundle : AbsPath) (relativeDir : Name) (dir : RelPath) (options : BundleFeatureCacheOptions)
    (input : CacheInput Value) (disk written attached : Disk) (manifest : WrittenManifest)
    (hname : validateAuxName options.auxName)
    (hdir : normalizeBundleRelativeDir relativeDir = some dir)
    (hlinks : ∀ part, part <+: dir → disk (bundle ++ part) ≠ some .symlink)
    (hwritten : Returns (writeFeatureCache platform writers (bundle ++ dir) input) disk manifest
      written)
    (hattached : Attached platform bundle relativeDir options written attached)
    (hserde : ReadsBack platform writers input)
    (hsize : ∀ file, (fileContent writers input file).length < 2 ^ 64) :
    ∃ cache, readVerifiedFeatureCacheBundleAuxiliary platform attached bundle options = .ok cache ∧
      Recovered platform writers input attached cache := by
  obtain ⟨-, hcache⟩ := written_of_returns hwritten
  obtain ⟨hne, hcomponents⟩ := component_of_normalize hdir
  obtain ⟨plan, hplan, hplanned⟩ := hattached.verified
  have hplanned := hplanned _ (auxiliaryPaths_eq hname hdir)
  have hsame : ∀ name, attached (bundle ++ dir ++ [name]) = written (bundle ++ dir ++ [name]) := by
    refine fun name => hattached.unchanged _ fun heq => hne ?_
    have hlength := congrArg List.length heq
    simp only [List.length_append, List.length_singleton] at hlength
    exact List.length_eq_zero_iff.mp (by omega)
  have hfiles : ∀ file : CacheFile, attached (bundle ++ dir ++ [file.name]) =
      some (.file (fileContent writers input file)) := fun file =>
    (hsame _).trans (hcache.files file)
  have hmanifest : attached (bundle ++ dir ++ [manifestFile]) =
      some (.file (writers.manifest (finalManifest platform writers input) ++ [10])) :=
    (hsame _).trans hcache.manifest
  -- no symlink stands on the way to a file of the cache
  have hpath : ∀ name content, Component name →
      attached (bundle ++ dir ++ [name]) = some (.file content) →
        validateVerifiedBundlePath attached bundle (bundle ++ (dir ++ [name])) = .ok () := by
    intro name content hname hfile
    refine validateVerifiedBundlePath_ok (by simp) ?_ fun part hpart hlink => ?_
    · exact List.forall_mem_append.mpr ⟨hcomponents, List.forall_mem_singleton.mpr hname⟩
    · rcases List.prefix_concat_iff.mp hpart with hall | hpart
      · rw [hall, ← List.append_assoc, hfile] at hlink
        cases hlink
      · by_cases hown : bundle ++ part = bundle ++ [manifestFile]
        · obtain ⟨content, hfile⟩ := hattached.manifest
          rw [hown, hfile] at hlink
          cases hlink
        · rw [hattached.unchanged _ hown] at hlink
          exact hlinks part hpart (hcache.symlinks _ hlink)
  have hplanFile : ∀ file : CacheFile, requireFeatureAuxiliary attached bundle plan
      options.auxName file = .ok (bundle ++ dir ++ [file.name]) := by
    intro file
    have hentry := hplanned _ (List.mem_map_of_mem (mem_cacheFiles file))
    unfold requireFeatureAuxiliary
    rw [hentry]
    refine bind_eq_ok.mpr ⟨_, rfl, bind_eq_ok.mpr ⟨(), ?_, ?_⟩⟩
    · exact hpath _ _ (component_name file) (hfiles file)
    · rw [List.append_assoc]
      rfl
  have hplanManifest : plan options.auxName = some (bundle ++ (dir ++ [manifestFile])) := by
    have hentry := hplanned _ (List.mem_map_of_mem (List.mem_cons_self (a := ([], manifestFile))))
    rwa [List.append_nil] at hentry
  have hdescriptors : validateVerifiedFeatureDescriptors platform attached
      (finalManifest platform writers input).toFeatureCacheManifest
      (pathsBelow (bundle ++ dir)) = .ok () := by
    refine forM_eq_ok.mpr fun file _ => ?_
    show validateDescriptor platform attached ((descriptors platform
      (fileContent writers input)).descriptor file) file _ = _
    rw [descriptor_descriptors, path_pathsBelow, validateDescriptor, hfiles file]
    simp only [bind_eq_ok, reject_eq_ok, exists_const, not_not]
    exact ⟨rfl, size_of_descriptor (hsize file), rfl⟩
  have hread : readFeatureCacheManifestFile platform attached
      (bundle ++ (dir ++ [manifestFile])) =
        .ok (finalManifest platform writers input).toFeatureCacheManifest := by
    rw [← List.append_assoc, readFeatureCacheManifestFile, readFile, hmanifest]
    exact okOr_eq_ok.mpr hserde.manifest
  have hcontent : ∀ file : CacheFile, contentOf attached (bundle ++ dir ++ [file.name]) =
      fileContent writers input file := fun file => by rw [contentOf, hfiles]
  refine ⟨⟨(finalManifest platform writers input).toFeatureCacheManifest,
    bundle ++ (dir ++ [manifestFile]), pathsBelow (bundle ++ dir)⟩, ?_, rfl, ?_, ?_, ?_, ?_, ?_⟩
  · refine bind_eq_ok.mpr ⟨(), reject_eq_ok.mpr (by rw [hname]; decide),
      bind_eq_ok.mpr ⟨bundle, okOr_eq_ok.mpr hattached.canonical,
      bind_eq_ok.mpr ⟨plan, okOr_eq_ok.mpr hplan,
      bind_eq_ok.mpr ⟨_, okOr_eq_ok.mpr hplanManifest,
      bind_eq_ok.mpr ⟨(), hpath _ _ component_manifest hmanifest,
      bind_eq_ok.mpr ⟨_, hread,
      bind_eq_ok.mpr ⟨(), manifestShape_written hcache.valid hsize, ?_⟩⟩⟩⟩⟩⟩⟩
    simp only [hplanFile, ok_bind]
    exact bind_eq_ok.mpr ⟨(), hdescriptors, rfl⟩
  · exact (congrArg (readQueries platform) (hcontent .queries)).trans (readQueries_eq hserde)
  · show FeatureCacheData.mk input.featureNames
      ((words 4 (contentOf attached (bundle ++ dir ++ [CacheFile.groups.name]))).map UInt32.ofNat)
      ((words 8 (contentOf attached (bundle ++ dir ++ [CacheFile.rowIds.name]))).map UInt64.ofNat)
      ((words 4 (contentOf attached (bundle ++ dir ++ [CacheFile.labels.name]))).map fun bits =>
        ⟨UInt32.ofNat bits⟩)
      ((words 4 (contentOf attached (bundle ++ dir ++ [CacheFile.features.name]))).map fun bits =>
        ⟨UInt32.ofNat bits⟩) input.queries = _
    simp only [hcontent, fileContent, words_u32File, words_u64File, words_f32File]
  · exact (congrArg platform.parseSchema (hcontent .featureSchema)).trans hserde.schema
  · exact hcontent .split
  · exact hcontent .provenance

/-! ## A cache with one row -/

def sampleInput : CacheInput Unit where
  featureNames := ["bm25_score".toList]
  groups := [1]
  rowIds := [7]
  labels := [⟨0x3f800000⟩]
  features := [⟨0x40000000⟩]
  queries := [⟨"q1".toList, "alpha".toList⟩]
  split := ()
  provenance := ()
  labelKind := "qrels".toList
  qrelsSourceSha256 := none
  bundleManifestSha256 := none
  forbiddenFeaturesPresent := []
  denseFeaturesPresent := false

def textLines (lines : List String) : Name := List.intercalate ['\n'] (lines.map String.toList)

def sampleSchemaText : Name := textLines ["\x7b",
  "  \"schema_version\": \"ordinaldb.ltr.features.v1\",",
  "  \"feature_names\": [", "    \"bm25_score\"", "  ],",
  "  \"forbidden_features\": [],", "  \"dense_features_present\": false", "\x7d"]

def sampleQueryText : Name := "\x7b\"query_id\":\"q1\",\"query\":\"alpha\"\x7d".toList

/-- What each file holds, and its digest. -/
def sampleContent : CacheFile → Bytes
  | .featureSchema => ascii sampleSchemaText ++ [10]
  | .groups => le 4 1
  | .rowIds => le 8 7
  | .labels => le 4 0x3f800000
  | .features => le 4 0x40000000
  | .queries => ascii sampleQueryText ++ [10]
  | .split => ascii "\x7b\x7d".toList ++ [10]
  | .provenance => ascii "\x7b\x7d".toList ++ [10]

def sampleSha256 : CacheFile → Name
  | .featureSchema =>
    Nat.toDigits 16 0x287774a68bc482480d7936c053fac4f5a84abbf7360bfbc72d17ca642a3b27f8
  | .groups => Nat.toDigits 16 0x67abdd721024f0ff4e0b3f4c2fc13bc5bad42d0b7851d456d88d203d15aaa450
  | .rowIds => Nat.toDigits 16 0xaae89fc0f03e2959ae4d701a80cc3915918c950b159f6abb6c92c1433b1a8534
  | .labels => Nat.toDigits 16 0xe00e5eb9444182f352323374ef4e08ebcb784725fdd4fd612d7730540b3e0c8c
  | .features => Nat.toDigits 16 0xd88c86f15bbea365d658ad95a81d45367c465f7af6f7264fb077f01747ddc77d
  | .queries => Nat.toDigits 16 0xa34f6ccb54751df37d596db4d8178a5f6d6988acf8fe1abb31d35d12bfbfb33f
  | .split => Nat.toDigits 16 0xca3d163bab055381827226140568f3bef7eaac187cebd76878e0b63e9e442356
  | .provenance =>
    Nat.toDigits 16 0xca3d163bab055381827226140568f3bef7eaac187cebd76878e0b63e9e442356

def sampleDescriptorText (key : String) (file : CacheFile) (comma : String) : List String :=
  ["    \"" ++ key ++ "\": \x7b",
    "      \"path\": \"" ++ String.ofList file.name ++ "\",",
    "      \"sha256\": \"" ++ String.ofList (sampleSha256 file) ++ "\",",
    "      \"file_size_bytes\": " ++ String.ofList (Text.decimal (sampleContent file).length),
    "    \x7d" ++ comma]

/-- The manifest as it is written. -/
def sampleManifestText : Name := textLines (["\x7b",
  "  \"schema_version\": \"ordinaldb.ltr.features.v1\",",
  "  \"feature_names\": [", "    \"bm25_score\"", "  ],",
  "  \"query_count\": 1,", "  \"row_count\": 1,", "  \"group_count\": 1,",
  "  \"label_kind\": \"qrels\",", "  \"qrels_source_sha256\": null,",
  "  \"bundle_manifest_sha256\": null,", "  \"forbidden_features_present\": [],",
  "  \"dense_features_present\": false,", "  \"files\": \x7b"] ++
  sampleDescriptorText "feature_schema" .featureSchema "," ++
  sampleDescriptorText "groups_u32" .groups "," ++
  sampleDescriptorText "row_ids_u64" .rowIds "," ++
  sampleDescriptorText "labels_f32" .labels "," ++
  sampleDescriptorText "features_f32" .features "," ++
  sampleDescriptorText "queries_jsonl" .queries "," ++
  sampleDescriptorText "split_json" .split "," ++
  sampleDescriptorText "provenance_json" .provenance "" ++ ["  \x7d", "\x7d"])

/-- `serde_json` on the records of this cache. -/
def sampleWriters : Writers Unit where
  schema _ := ascii sampleSchemaText
  query _ := ascii sampleQueryText
  value _ := ascii "\x7b\x7d".toList
  manifest _ := ascii sampleManifestText
  pieces content := [content]
  flatten_pieces content := by simp

def sampleBundle : AbsPath := ["srv".toList, "a.odb".toList]

def sampleFiles : FeatureCacheFiles where
  featureSchema := ⟨CacheFile.featureSchema.name, sampleSha256 .featureSchema, 158⟩
  groupsU32 := ⟨CacheFile.groups.name, sampleSha256 .groups, 4⟩
  rowIdsU64 := ⟨CacheFile.rowIds.name, sampleSha256 .rowIds, 8⟩
  labelsF32 := ⟨CacheFile.labels.name, sampleSha256 .labels, 4⟩
  featuresF32 := ⟨CacheFile.features.name, sampleSha256 .features, 4⟩
  queriesJsonl := ⟨CacheFile.queries.name, sampleSha256 .queries, 34⟩
  splitJson := ⟨CacheFile.split.name, sampleSha256 .split, 3⟩
  provenanceJson := ⟨CacheFile.provenance.name, sampleSha256 .provenance, 3⟩

/-- The libraries on this bundle. -/
def samplePlatform : Platform where
  canonicalize path := some path
  verifyForLoad _ _ := some fun name =>
    (cacheFiles.find? fun entry => name = oddOptions.auxName ++ entry.1).map fun entry =>
      sampleBundle ++ (["ltr".toList] ++ [entry.2])
  sha256 content :=
    match CacheFile.all.find? fun file => content = sampleContent file with
    | some file => sampleSha256 file
    | none => []
  parseManifest content :=
    if content = ascii sampleManifestText ++ [10] then
      some (sampleInput.manifest sampleFiles).toFeatureCacheManifest
    else none
  parseSchema content :=
    if content = ascii sampleSchemaText ++ [10] then some sampleInput.schema else none
  parseQuery content :=
    if content = ascii sampleQueryText then some ⟨"q1".toList, "alpha".toList⟩ else none

/-- A bundle with its manifest. -/
def sampleDisk : Disk := fun path =>
  if path = sampleBundle ++ [manifestFile] then some (.file [])
  else if path <+: sampleBundle then some .directory
  else none

def sampleRun : Effect Disk WrittenManifest :=
  writeFeatureCache samplePlatform sampleWriters (sampleBundle ++ ["ltr".toList]) sampleInput
    sampleDisk

theorem sample_manifest :
    (finalManifest samplePlatform sampleWriters sampleInput).toFeatureCacheManifest =
      (sampleInput.manifest sampleFiles).toFeatureCacheManifest := by
  decide +kernel

theorem sampleRun_cautious : Cautious samplePlatform sampleWriters (sampleBundle ++ ["ltr".toList])
    sampleInput sampleDisk sampleRun.final :=
  write_feature_cache_cut samplePlatform sampleWriters (sampleBundle ++ ["ltr".toList]) sampleInput
    sampleDisk sampleRun.final (.inr rfl)

theorem sampleRun_returns : sampleRun.answer.isSome := by
  decide +kernel

theorem sampleRun_read : ∃ cache, readVerifiedFeatureCacheBundleAuxiliary samplePlatform
      sampleRun.final sampleBundle oddOptions = .ok cache ∧
    Recovered samplePlatform sampleWriters sampleInput sampleRun.final cache := by
  obtain ⟨manifest, hmanifest⟩ := Option.isSome_iff_exists.mp sampleRun_returns
  have hserde : ReadsBack samplePlatform sampleWriters sampleInput := by
    refine ⟨?_, by decide +kernel, fun query hquery => ?_, fun query hquery => ?_⟩
    · rw [sample_manifest]
      simp only [samplePlatform, sampleWriters, if_true]
    · obtain rfl := List.mem_singleton.mp hquery
      decide +kernel
    · obtain rfl := List.mem_singleton.mp hquery
      exact ⟨by decide +kernel, by decide +kernel⟩
  have hattached : Attached samplePlatform sampleBundle "ltr".toList oddOptions sampleRun.final
      sampleRun.final := by
    refine ⟨fun _ _ => rfl, ⟨[], ?_⟩, rfl, _, rfl, fun entries hentries => ?_⟩
    · decide +kernel
    · have hpaths : featureCacheAuxiliaryPaths "ltr".toList oddOptions.auxName =
          some (cacheFiles.map fun entry => (oddOptions.auxName ++ entry.1,
            ["ltr".toList] ++ [entry.2])) := auxiliaryPaths_eq (by decide +kernel) (by decide +kernel)
      obtain rfl := Option.some.inj (hpaths.symm.trans hentries)
      decide +kernel
  have hreturns : Returns (writeFeatureCache samplePlatform sampleWriters
      (sampleBundle ++ ["ltr".toList]) sampleInput) sampleDisk manifest sampleRun.final :=
    ⟨hmanifest, rfl⟩
  have hlinks : ∀ part, part <+: ["ltr".toList] →
      sampleDisk (sampleBundle ++ part) ≠ some .symlink := by
    intro part _ hlink
    unfold sampleDisk at hlink
    split_ifs at hlink <;> cases hlink
  have hsize : ∀ file, (fileContent sampleWriters sampleInput file).length < 2 ^ 64 := by
    intro file
    cases file <;> decide +kernel
  exact write_feature_cache_read samplePlatform sampleWriters sampleBundle "ltr".toList
    ["ltr".toList] oddOptions sampleInput sampleDisk sampleRun.final sampleRun.final manifest
    (by decide +kernel) (by decide +kernel) hlinks hreturns hattached hserde hsize

end OrdinalDB.Ltr
