import OrdinalDB.Lib.Table
import OrdinalDB.Lib.Text

/-!
# Feature caches of a bundle

`attach_feature_cache_auxiliaries` of `ordinaldb-ltr/src/lib.rs` on a loaded
bundle manifest. Which of the declared artifacts belong to a cache is decided by
`is_feature_cache_auxiliary_name`, which accepts more names than the nine of
`feature_cache_auxiliary_paths`.

Results: `attach_touches_iff` (when only the nine are removed or replaced, when
two caches keep apart, and attaching twice), and `attach_drops_sidecars` (the
cache name `ordinaldb`).
-/

namespace OrdinalDB.Ltr

open Text (isWhitespace)

abbrev Name := List Char

/-! ## Names -/

/-- `str::trim`. -/
def trim (text : Name) : Name :=
  ((text.dropWhile isWhitespace).reverse.dropWhile isWhitespace).reverse

def validateAuxName (auxName : Name) : Bool := trim auxName ≠ [] && auxName = trim auxName

def isFeatureCacheAuxiliaryName (name auxName : Name) : Bool :=
  name = auxName || (auxName ++ ['.']).isPrefixOf name

/-- The suffix of every auxiliary name, and its file. -/
def cacheFiles : List (Name × Name) :=
  [([], "manifest.json".toList),
    (".feature_schema".toList, "feature_schema.json".toList),
    (".groups".toList, "groups.u32".toList),
    (".row_ids".toList, "row_ids.u64".toList),
    (".labels".toList, "labels.f32".toList),
    (".features".toList, "features.f32".toList),
    (".queries".toList, "queries.jsonl".toList),
    (".split".toList, "split.json".toList),
    (".provenance".toList, "provenance.json".toList)]

/-! ## Paths -/

/-- The normal components of a relative path. -/
abbrev RelPath := List Name

/-- `normalize_bundle_relative_dir`. -/
def normalizeBundleRelativeDir (path : Name) : Option RelPath := do
  guard (path ≠ [] ∧ path.head? ≠ some '/')
  let parts := (path.splitOn '/').filter fun part => part ≠ [] && part ≠ ['.']
  guard ("..".toList ∉ parts ∧ parts ≠ [])
  pure parts

def featureCacheAuxiliaryPaths (cacheRelativeDir auxName : Name) : Option (List (Name × RelPath)) := do
  guard (validateAuxName auxName)
  let dir ← normalizeBundleRelativeDir cacheRelativeDir
  pure (cacheFiles.map fun (suffix, file) => (auxName ++ suffix, dir ++ [file]))

def manifestRelativePathString (path : RelPath) : Name :=
  (List.intercalate ['/'] path).map fun c => if c = '\\' then '/' else c

/-! ## Files and manifests -/

inductive Entry
  | file (bytes : Nat) (sha256 : Name)
  | directory
  | symlink
deriving DecidableEq, Repr

/-- What the bundle holds under each path; the bundle itself is the empty path. -/
abbrev Tree := RelPath → Option Entry

structure AuxiliaryArtifact where
  name : Name
  path : Name
  sha256 : Name
  fileSizeBytes : Nat
  required : Bool
deriving DecidableEq, Repr

/-- A bundle manifest; `Rest` is everything but the auxiliary artifacts. -/
structure Manifest (Rest : Type) where
  auxiliaryArtifacts : List AuxiliaryArtifact
  rest : Rest
deriving DecidableEq

structure BundleFeatureCacheOptions where
  auxName : Name
  maxAuxiliaryArtifactBytes : Nat

/-! ## Attaching -/

/-- `reject_bundle_relative_symlinks`: neither the bundle nor a part of the path is a symlink. -/
def rejectBundleRelativeSymlinks (tree : Tree) (path : RelPath) : Bool :=
  path.inits.all fun part => tree part ≠ some .symlink

/-- The loop body: the declaration of one file. -/
def describe (tree : Tree) (options : BundleFeatureCacheOptions) (entry : Name × RelPath) :
    Option AuxiliaryArtifact := do
  guard (rejectBundleRelativeSymlinks tree entry.2)
  match tree entry.2 with
  | some (.file bytes sha256) =>
    guard (bytes ≤ options.maxAuxiliaryArtifactBytes)
    pure ⟨entry.1, manifestRelativePathString entry.2, sha256, bytes, true⟩
  | _ => none

/-- `attach_feature_cache_auxiliaries` on the loaded manifest; `none` is an error. -/
def attachFeatureCacheAuxiliaries {Rest : Type} (tree : Tree) (cacheRelativeDir : Name)
    (options : BundleFeatureCacheOptions) (manifest : Manifest Rest) : Option (Manifest Rest) := do
  guard (validateAuxName options.auxName)
  let paths ← featureCacheAuxiliaryPaths cacheRelativeDir options.auxName
  let kept := manifest.auxiliaryArtifacts.filter fun artifact =>
    !isFeatureCacheAuxiliaryName artifact.name options.auxName
  let attached ← paths.mapM (describe tree options)
  pure { manifest with auxiliaryArtifacts := kept ++ attached }

/-! ## The names of a cache -/

/-- The nine auxiliary names of a cache. -/
def cacheNames (auxName : Name) : List Name := cacheFiles.map fun (suffix, _) => auxName ++ suffix

section Names

variable {name auxName a b : Name}

theorem isFeatureCacheAuxiliaryName_iff : isFeatureCacheAuxiliaryName name auxName ↔
    name = auxName ∨ auxName ++ ['.'] <+: name := by
  simp [isFeatureCacheAuxiliaryName]

theorem mem_cacheNames : name ∈ cacheNames auxName ↔
    ∃ suffix file, (suffix, file) ∈ cacheFiles ∧ name = auxName ++ suffix := by
  simp only [cacheNames, List.mem_map, Prod.exists, eq_comm]

/-- A suffix is empty or one component behind a dot. -/
theorem suffix_cases {suffix file : Name} (h : (suffix, file) ∈ cacheFiles) :
    suffix = [] ∨ ∃ part, suffix = '.' :: part ∧ '.' ∉ part := by
  have hall : ∀ entry ∈ cacheFiles, entry.1 = [] ∨ entry.1.head? = some '.' ∧ '.' ∉ entry.1.tail := by
    decide
  rcases hall _ h with hempty | ⟨hhead, htail⟩
  · exact .inl hempty
  · obtain ⟨part, hpart⟩ := List.head?_eq_some_iff.mp hhead
    dsimp only at hpart htail
    exact .inr ⟨part, hpart, by rw [hpart] at htail; exact htail⟩

theorem match_of_mem_cacheNames (h : name ∈ cacheNames auxName) :
    isFeatureCacheAuxiliaryName name auxName := by
  obtain ⟨suffix, file, hentry, rfl⟩ := mem_cacheNames.mp h
  refine isFeatureCacheAuxiliaryName_iff.mpr ?_
  rcases suffix_cases hentry with rfl | ⟨part, rfl, -⟩
  · exact .inl (List.append_nil _)
  · exact .inr ⟨part, by simp⟩

theorem self_mem_cacheNames : auxName ∈ cacheNames auxName :=
  mem_cacheNames.mpr ⟨[], _, List.mem_cons_self, (List.append_nil _).symm⟩

/-- When a name of the cache `b` is taken for one of the cache `a`. -/
theorem exists_match_iff (hne : a ≠ b) :
    (∃ name ∈ cacheNames b, isFeatureCacheAuxiliaryName name a) ↔
      a ++ ['.'] <+: b ∨ a ∈ cacheNames b := by
  constructor
  · rintro ⟨name, hname, hmatch⟩
    rcases isFeatureCacheAuxiliaryName_iff.mp hmatch with rfl | hprefix
    · exact .inr hname
    · obtain ⟨suffix, file, hentry, rfl⟩ := mem_cacheNames.mp hname
      rcases suffix_cases hentry with rfl | ⟨part, rfl, hpart⟩
      · exact .inl (by rwa [List.append_nil] at hprefix)
      · have hmark : a ++ '.' :: [] <+: b ++ '.' :: part ++ [] := by
          rwa [List.append_nil]
        rcases Text.mark_prefix_cases (by simp) hpart (by simp) hmark with ⟨heq, -⟩ | hextends
        · exact absurd heq hne
        · exact .inl hextends
  · rintro (hextends | hmem)
    · exact ⟨b, self_mem_cacheNames, isFeatureCacheAuxiliaryName_iff.mpr (.inr hextends)⟩
    · exact ⟨a, hmem, isFeatureCacheAuxiliaryName_iff.mpr (.inl rfl)⟩

end Names

/-! ## What attaching does -/

section Attach

variable {Rest : Type} {tree : Tree} {cacheRelativeDir : Name} {options : BundleFeatureCacheOptions}
  {manifest manifest' : Manifest Rest}

theorem describe_eq_some {entry : Name × RelPath} {artifact : AuxiliaryArtifact}
    (h : describe tree options entry = some artifact) :
    artifact.name = entry.1 ∧ artifact.path = manifestRelativePathString entry.2 := by
  unfold describe at h
  simp only [Option.bind_eq_bind, Option.bind_eq_some_iff] at h
  obtain ⟨-, -, h⟩ := h
  split at h
  next =>
    obtain ⟨-, -, h⟩ := Option.bind_eq_some_iff.mp h
    obtain rfl := Option.some.inj h
    exact ⟨rfl, rfl⟩
  next => cases h

/-- The declarations of the nine files of a cache below `dir`. -/
structure Declares (auxName : Name) (dir : RelPath) (attached : List AuxiliaryArtifact) : Prop where
  names : attached.map AuxiliaryArtifact.name = cacheNames auxName
  paths : attached.map AuxiliaryArtifact.path =
    cacheFiles.map fun (_, file) => manifestRelativePathString (dir ++ [file])

theorem attach_eq_some (h : attachFeatureCacheAuxiliaries tree cacheRelativeDir options manifest =
    some manifest') :
    ∃ dir attached, dir ≠ [] ∧ Declares options.auxName dir attached ∧
      (∀ other : Manifest Rest,
        attachFeatureCacheAuxiliaries tree cacheRelativeDir options other =
          some { other with auxiliaryArtifacts := (other.auxiliaryArtifacts.filter fun artifact =>
            !isFeatureCacheAuxiliaryName artifact.name options.auxName) ++ attached }) := by
  simp only [attachFeatureCacheAuxiliaries, featureCacheAuxiliaryPaths, Option.bind_eq_bind,
    Option.bind_eq_some_iff, Option.guard_eq_some', Option.pure_def, Option.some.injEq,
    exists_const] at h
  obtain ⟨hname, paths, ⟨-, dir, hdir, rfl⟩, attached, hattached, -⟩ := h
  have hnonempty : dir ≠ [] := by
    simp only [normalizeBundleRelativeDir, Option.bind_eq_bind, Option.bind_eq_some_iff,
      Option.guard_eq_some', Option.pure_def, Option.some.injEq, exists_const] at hdir
    obtain ⟨-, ⟨-, hparts⟩, rfl⟩ := hdir
    exact hparts
  refine ⟨dir, attached, hnonempty, ⟨?_, ?_⟩, fun other => ?_⟩
  · rw [Table.map_of_mapM hattached fun _ _ hread => (describe_eq_some hread).1, List.map_map]
    rfl
  · rw [Table.map_of_mapM hattached fun _ _ hread => (describe_eq_some hread).2, List.map_map]
    rfl
  · simp [attachFeatureCacheAuxiliaries, featureCacheAuxiliaryPaths, hname, hdir, hattached]

/-- Outside the names nothing is added, removed or replaced. -/
def OnlyTouches (names : List Name) (before after : List AuxiliaryArtifact) : Prop :=
  after.filter (fun artifact => artifact.name ∉ names) =
    before.filter fun artifact => artifact.name ∉ names

theorem filter_append_attached {auxName : Name} {dir : RelPath}
    {before attached : List AuxiliaryArtifact} (h : Declares auxName dir attached)
    {keep : AuxiliaryArtifact → Bool} (hkeep : ∀ artifact, keep artifact →
      artifact.name ∉ cacheNames auxName) :
    (before ++ attached).filter keep = before.filter keep := by
  have hnone : attached.filter keep = [] := by
    refine List.filter_eq_nil_iff.mpr fun artifact hartifact hkept => hkeep artifact hkept ?_
    rw [← h.names]
    exact List.mem_map_of_mem hartifact
  rw [List.filter_append, hnone, List.append_nil]

theorem onlyTouches_iff {auxName : Name} {dir : RelPath} {before attached : List AuxiliaryArtifact}
    (h : Declares auxName dir attached) :
    OnlyTouches (cacheNames auxName) before
        ((before.filter fun artifact => !isFeatureCacheAuxiliaryName artifact.name auxName) ++
          attached) ↔
      ∀ artifact ∈ before, isFeatureCacheAuxiliaryName artifact.name auxName →
        artifact.name ∈ cacheNames auxName := by
  unfold OnlyTouches
  rw [filter_append_attached h fun _ hkept => of_decide_eq_true hkept, List.filter_filter]
  constructor
  · intro hsame artifact hartifact hmatch
    by_contra hnew
    have hmem : artifact ∈ before.filter fun artifact => artifact.name ∉ cacheNames auxName :=
      List.mem_filter.mpr ⟨hartifact, decide_eq_true hnew⟩
    rw [← hsame, List.mem_filter] at hmem
    simp [hmatch] at hmem
  · intro hall
    refine List.filter_congr fun artifact hartifact => ?_
    cases hmatch : isFeatureCacheAuxiliaryName artifact.name auxName with
    | true => simp [hall artifact hartifact hmatch]
    | false => simp

/-- Attaching again finds its own declarations and replaces them by the same ones. -/
theorem attach_again (h : attachFeatureCacheAuxiliaries tree cacheRelativeDir options manifest =
    some manifest') :
    attachFeatureCacheAuxiliaries tree cacheRelativeDir options manifest' = some manifest' := by
  obtain ⟨dir, attached, -, hdeclares, hattach⟩ := attach_eq_some h
  obtain rfl := Option.some.inj ((hattach manifest).symm.trans h)
  have hkeep : ∀ artifact : AuxiliaryArtifact,
      !isFeatureCacheAuxiliaryName artifact.name options.auxName →
        artifact.name ∉ cacheNames options.auxName := fun artifact hkept hmem => by
    rw [match_of_mem_cacheNames hmem] at hkept
    cases hkept
  rw [hattach]
  simp only [filter_append_attached hdeclares hkeep, List.filter_filter, Bool.and_self]

/-- The file of a declaration is told by its path. -/
theorem file_unique {dir dir' : RelPath} {suffix suffix' file file' : Name} (hdir : dir ≠ [])
    (hdir' : dir' ≠ []) (hentry : (suffix, file) ∈ cacheFiles)
    (hentry' : (suffix', file') ∈ cacheFiles)
    (h : manifestRelativePathString (dir ++ [file]) =
      manifestRelativePathString (dir' ++ [file'])) : suffix = suffix' := by
  have hplain : ∀ entry ∈ cacheFiles, '/' ∉ entry.2 ∧ '\\' ∉ entry.2 := by decide
  have hsuffixes : ∀ entry ∈ cacheFiles, ∀ entry' ∈ cacheFiles,
      entry.2 = entry'.2 → entry.1 = entry'.1 := by decide
  have hlast : ∀ (dir : RelPath) (file : Name), dir ≠ [] → '\\' ∉ file →
      ∃ front, manifestRelativePathString (dir ++ [file]) = front ++ '/' :: file := by
    intro dir file hdir hfile
    refine ⟨manifestRelativePathString dir, ?_⟩
    have hsame : file.map (fun c => if c = '\\' then '/' else c) = file.map id :=
      List.map_congr_left fun c hc => if_neg (by rintro rfl; exact hfile hc)
    rw [List.map_id] at hsame
    simp [manifestRelativePathString, Text.intercalate_concat hdir, hsame]
  obtain ⟨front, hfront⟩ := hlast dir file hdir (hplain _ hentry).2
  obtain ⟨front', hfront'⟩ := hlast dir' file' hdir' (hplain _ hentry').2
  rw [hfront, hfront'] at h
  exact hsuffixes _ hentry _ hentry' (Text.last_part_unique (hplain _ hentry).1 (hplain _ hentry').1 h)

theorem Declares.entry {auxName : Name} {dir : RelPath} {attached : List AuxiliaryArtifact}
    (h : Declares auxName dir attached) {artifact : AuxiliaryArtifact}
    (hartifact : artifact ∈ attached) :
    ∃ suffix file, (suffix, file) ∈ cacheFiles ∧ artifact.name = auxName ++ suffix ∧
      artifact.path = manifestRelativePathString (dir ++ [file]) := by
  obtain ⟨i, hi⟩ := List.mem_iff_getElem?.mp hartifact
  have hname := congrArg (·[i]?) h.names
  have hpath := congrArg (·[i]?) h.paths
  simp only [cacheNames, List.getElem?_map, hi, Option.map_some] at hname hpath
  obtain ⟨⟨suffix, file⟩, hentry, hsuffix⟩ := Option.map_eq_some_iff.mp hname.symm
  rw [hentry] at hpath
  exact ⟨suffix, file, List.mem_of_getElem? hentry, hsuffix.symm, Option.some.inj hpath⟩

/-- The declarations of the cache `b` survive an attach of another cache `a` exactly when none of
them is taken for one of `a`. -/
theorem survives_iff {a b : Name} (hne : a ≠ b) {dir dir' : RelPath} (hdir : dir ≠ [])
    (hdir' : dir' ≠ []) (before : List AuxiliaryArtifact) {attached attached' : List AuxiliaryArtifact}
    (hb : Declares b dir attached) (ha : Declares a dir' attached') :
    (∀ artifact ∈ attached, artifact ∈
      ((before ++ attached).filter fun artifact => !isFeatureCacheAuxiliaryName artifact.name a) ++
        attached') ↔ ¬(a ++ ['.'] <+: b ∨ a ∈ cacheNames b) := by
  rw [← exists_match_iff hne]
  constructor
  · rintro hall ⟨name, hname, hmatch⟩
    rw [← hb.names] at hname
    obtain ⟨artifact, hartifact, rfl⟩ := List.mem_map.mp hname
    rcases List.mem_append.mp (hall artifact hartifact) with hkept | hnew
    · have hunmatched := (List.mem_filter.mp hkept).2
      rw [hmatch] at hunmatched
      cases hunmatched
    · -- the new declaration of the same name has another path
      obtain ⟨suffix, file, hentry, hsuffix, hpath⟩ := hb.entry hartifact
      obtain ⟨suffix', file', hentry', hsuffix', hpath'⟩ := ha.entry hnew
      obtain rfl := file_unique hdir hdir' hentry hentry' (hpath.symm.trans hpath')
      exact hne (List.append_cancel_right (hsuffix'.symm.trans hsuffix))
  · intro hnone artifact hartifact
    have hname : artifact.name ∈ cacheNames b := hb.names ▸ List.mem_map_of_mem hartifact
    have hkept : isFeatureCacheAuxiliaryName artifact.name a = false :=
      Bool.eq_false_of_not_eq_true fun hmatch => hnone ⟨artifact.name, hname, hmatch⟩
    refine List.mem_append_left _ (List.mem_filter.mpr ⟨List.mem_append_right _ hartifact, ?_⟩)
    rw [hkept]
    rfl

end Attach

/-- Attaching a cache touches only that cache exactly when no other declared name begins with its
name and a dot; attaching twice is attaching once; and another cache `b` keeps its declarations
exactly when its name does not begin so and the new name is none of its nine. -/
theorem attach_touches_iff {Rest : Type} :
    (∀ (tree : Tree) (cacheRelativeDir : Name) (options : BundleFeatureCacheOptions)
        (manifest manifest' : Manifest Rest),
      attachFeatureCacheAuxiliaries tree cacheRelativeDir options manifest = some manifest' →
        manifest'.rest = manifest.rest ∧
        attachFeatureCacheAuxiliaries tree cacheRelativeDir options manifest' = some manifest' ∧
        (OnlyTouches (cacheNames options.auxName) manifest.auxiliaryArtifacts
            manifest'.auxiliaryArtifacts ↔
          ∀ artifact ∈ manifest.auxiliaryArtifacts,
            isFeatureCacheAuxiliaryName artifact.name options.auxName →
              artifact.name ∈ cacheNames options.auxName)) ∧
    ∀ (tree tree' : Tree) (dirB dirA : Name) (optionsB optionsA : BundleFeatureCacheOptions)
        (manifest attached both : Manifest Rest), optionsA.auxName ≠ optionsB.auxName →
      attachFeatureCacheAuxiliaries tree dirB optionsB manifest = some attached →
      attachFeatureCacheAuxiliaries tree' dirA optionsA attached = some both →
        ((∀ artifact ∈ attached.auxiliaryArtifacts,
            artifact.name ∈ cacheNames optionsB.auxName → artifact ∈ both.auxiliaryArtifacts) ↔
          ¬(optionsA.auxName ++ ['.'] <+: optionsB.auxName ∨
            optionsA.auxName ∈ cacheNames optionsB.auxName)) := by
  constructor
  · intro tree cacheRelativeDir options manifest manifest' h
    obtain ⟨dir, attached, -, hdeclares, hattach⟩ := attach_eq_some h
    obtain rfl := Option.some.inj ((hattach manifest).symm.trans h)
    exact ⟨rfl, attach_again h, onlyTouches_iff hdeclares⟩
  · intro tree tree' dirB dirA optionsB optionsA manifest attached both hne hb ha
    obtain ⟨dir, nineB, hdir, hdeclaresB, hattachB⟩ := attach_eq_some hb
    obtain ⟨dir', nineA, hdir', hdeclaresA, hattachA⟩ := attach_eq_some ha
    obtain rfl := Option.some.inj ((hattachB manifest).symm.trans hb)
    obtain rfl := Option.some.inj ((hattachA _).symm.trans ha)
    rw [← survives_iff hne hdir hdir' (manifest.auxiliaryArtifacts.filter fun artifact =>
      !isFeatureCacheAuxiliaryName artifact.name optionsB.auxName) hdeclaresB hdeclaresA]
    -- the declarations of `b` are the nine that were attached
    constructor
    · intro hall artifact hartifact
      exact hall artifact (List.mem_append_right _ hartifact)
        (hdeclaresB.names ▸ List.mem_map_of_mem hartifact)
    · intro hall artifact hartifact hname
      rcases List.mem_append.mp hartifact with hkept | hnew
      · have hunmatched := (List.mem_filter.mp hkept).2
        rw [match_of_mem_cacheNames hname] at hunmatched
        cases hunmatched
      · exact hall artifact hnew

/-! ## The cache name of the sidecars -/

/-- A bundle with a complete cache in `ltr`. -/
def cacheTree : Tree := fun path =>
  if path = [] ∨ path = ["ltr".toList] then some .directory
  else if path ∈ cacheFiles.map fun (_, file) => ["ltr".toList, file] then
    some (.file 10 "digest".toList)
  else none

/-- The sidecars that an ID-mapped index declares. -/
def sidecarManifest : Manifest Unit where
  auxiliaryArtifacts :=
    [⟨"ordinaldb.sign".toList, "sign.ovsb".toList, "sign digest".toList, 20, true⟩,
      ⟨"ordinaldb.ids".toList, "ids.bin".toList, "ids digest".toList, 30, true⟩]
  rest := ()

/-- The default name leaves the sidecars alone. -/
theorem attach_touches_default : ∃ manifest',
    attachFeatureCacheAuxiliaries cacheTree "ltr".toList ⟨"ordinaldb.ltr_features".toList, 100⟩
      sidecarManifest = some manifest' ∧
    OnlyTouches (cacheNames "ordinaldb.ltr_features".toList) sidecarManifest.auxiliaryArtifacts
      manifest'.auxiliaryArtifacts := by
  have hattach : (attachFeatureCacheAuxiliaries cacheTree "ltr".toList
      ⟨"ordinaldb.ltr_features".toList, 100⟩ sidecarManifest).isSome := by decide +kernel
  obtain ⟨manifest', hmanifest⟩ := Option.isSome_iff_exists.mp hattach
  exact ⟨manifest', hmanifest,
    (attach_touches_iff.1 _ _ _ _ _ hmanifest).2.2.mpr (by decide +kernel)⟩

/-- A cache named `ordinaldb` takes both sidecars out of the manifest. -/
theorem attach_drops_sidecars : ∃ manifest',
    attachFeatureCacheAuxiliaries cacheTree "ltr".toList ⟨"ordinaldb".toList, 100⟩
      sidecarManifest = some manifest' ∧
    "ordinaldb.ids".toList ∉ cacheNames "ordinaldb".toList ∧
    (∃ artifact ∈ sidecarManifest.auxiliaryArtifacts, artifact.name = "ordinaldb.ids".toList) ∧
    ∀ artifact ∈ manifest'.auxiliaryArtifacts, artifact.name ≠ "ordinaldb.ids".toList := by
  have hattach : (attachFeatureCacheAuxiliaries cacheTree "ltr".toList ⟨"ordinaldb".toList, 100⟩
      sidecarManifest).any fun manifest' =>
        manifest'.auxiliaryArtifacts.all (·.name ≠ "ordinaldb.ids".toList) := by decide +kernel
  obtain ⟨manifest', hmanifest, hgone⟩ := (Option.any_eq_true _ _).mp hattach
  refine ⟨manifest', hmanifest, by decide +kernel, by decide +kernel, fun artifact hartifact => ?_⟩
  exact of_decide_eq_true (List.all_eq_true.mp hgone artifact hartifact)

end OrdinalDB.Ltr
