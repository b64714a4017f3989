import OrdinalDB.Index.Reached
import OrdinalDB.Lib.Bytes
import OrdinalDB.Ltr.Auxiliaries

/-!
# What is in a bundle

`write_bundle_contents` and `copy_auxiliary_artifacts` of `ordinaldb/src/io.rs`
and `open_verified` of both index types, on the files of one bundle directory.
The directory is published as a whole, so a bundle that was written is the tree
that `write_bundle` verified.

The manifest and the two vector stores are written and read by `ordvec` and
`ordvec-manifest`: `Vendor` says what they promise. The id file is read and
written here. `none` is an error.
-/

namespace OrdinalDB.Artifacts

open ByteCodec Ltr

abbrev Bytes := List UInt8

/-! ## Names -/

def manifestFile : Name := "manifest.json".toList

def indexFile : Name := "index.ovrq".toList

def signFile : Name := "sign.ovsb".toList

def idsFile : Name := "ids.bin".toList

def signAuxName : Name := "ordinaldb.sign".toList

def idsAuxName : Name := "ordinaldb.ids".toList

/-- `validate_bundle_relative_path`: the components of a path. A dot is a component at the
front only, where it is refused. -/
def validateBundleRelativePath (path : Name) : Option RelPath := do
  guard (path ≠ [] ∧ path.head? ≠ some '/')
  guard ((path.splitOn '/').head? ≠ some ['.'])
  let parts := (path.splitOn '/').filter fun part => part ≠ [] && part ≠ ['.']
  guard ("..".toList ∉ parts)
  pure parts

structure AuxiliaryArtifactDeclaration (F : Type) where
  name : Name
  /-- The content of `source_path`, when it can be read. -/
  source : Option F
  bundlePath : Name
  required : Bool

structure CreateAuxiliaryArtifact where
  name : Name
  path : RelPath
  required : Bool
deriving DecidableEq, Repr

structure CreateManifestOptions (L : Type) where
  /-- Path policy and resource limits, which creation and verification share. -/
  limits : L
  auxiliaryArtifacts : List CreateAuxiliaryArtifact

/-! ## Files -/

inductive Entry (F : Type)
  | file (content : F)
  | directory
deriving DecidableEq, Repr

def Entry.isFile {F : Type} : Entry F → Bool
  | file _ => true
  | directory => false

/-- The entries of a bundle directory, without its manifest. -/
abbrev Tree (F : Type) := RelPath → Option (Entry F)

variable {F M L R S : Type}

def Tree.empty : Tree F := fun path => if path = [] then some .directory else none

def Tree.write (tree : Tree F) (path : RelPath) (content : F) : Tree F :=
  Function.update tree path (some (.file content))

def Tree.read (tree : Tree F) (path : RelPath) : Option F :=
  match tree path with
  | some (.file content) => some content
  | _ => none

/-- `fs::create_dir_all`. -/
def Tree.createDirAll (tree : Tree F) (path : RelPath) : Option (Tree F) :=
  if path.inits.any fun part => (tree part).any Entry.isFile then none
  else some fun part => if part ∈ path.inits then some .directory else tree part

/-- A bundle: its manifest and the other files. -/
structure Bundle (F M : Type) where
  manifest : M
  tree : Tree F

/-! ## The vendored formats -/

inductive ManifestIndexKind
  | rankQuant
  | other
deriving DecidableEq, Repr

inductive ManifestIndexParams
  | rankQuant (bits : UInt8)
  | other
deriving DecidableEq, Repr

structure VerifiedLoadPlan where
  artifactPath : RelPath
  kind : ManifestIndexKind
  params : ManifestIndexParams
  dim : Nat
  vectorCount : Nat
  rowIdentityKind : String
  rowCount : Nat
  /-- Names, and paths where they are verified. -/
  auxiliaryArtifacts : List (Name × Option RelPath)
deriving DecidableEq, Repr

/-- The plan of a bundle with these artifacts. -/
def planOf (rankquant : RankQuant R) (auxiliaries : List CreateAuxiliaryArtifact) :
    VerifiedLoadPlan where
  artifactPath := [indexFile]
  kind := .rankQuant
  params := .rankQuant rankquant.bits
  dim := rankquant.dim
  vectorCount := rankquant.len
  rowIdentityKind := "row_id_identity"
  rowCount := rankquant.len
  auxiliaryArtifacts := auxiliaries.map fun artifact => (artifact.name, some artifact.path)

/-- What `ordvec` and `ordvec-manifest` do. The stores are read as they were written, and so is
a manifest of artifacts with distinct names that verifies. -/
structure Vendor (F M L R S : Type) where
  bytes : F → Bytes
  ofBytes : Bytes → F
  bytes_ofBytes : ∀ content, bytes (ofBytes content) = content
  writeRank : RankQuant R → F
  loadRank : F → Option (RankQuant R)
  loadRank_writeRank : ∀ rankquant, loadRank (writeRank rankquant) = some rankquant
  writeSign : SignBitmap S → F
  loadSign : F → Option (SignBitmap S)
  loadSign_writeSign : ∀ sign, loadSign (writeSign sign) = some sign
  /-- `create_manifest_for_index_with_options` with row id identity. -/
  createManifest : L → Tree F → List CreateAuxiliaryArtifact → Option M
  verifyForLoad : L → Bundle F M → Option VerifiedLoadPlan
  roundTrip : ∀ limits tree rankquant auxiliaries manifest plan,
    tree.read [indexFile] = some (writeRank rankquant) →
    (auxiliaries.map (·.name)).Nodup →
    createManifest limits tree auxiliaries = some manifest →
    verifyForLoad limits ⟨manifest, tree⟩ = some plan → plan = planOf rankquant auxiliaries

/-! ## The id file -/

def idsMagic : Bytes := "ODBIDS1".toUTF8.toList ++ [0]

theorem idsMagic_length : idsMagic.length = 8 := by decide +kernel

/-- A file offset is an `i64`. -/
def maxFileBytes : Nat := 2 ^ 63 - 1

def idsBytes (ids : List UInt64) : Bytes :=
  idsMagic ++ le 8 ids.length ++ ids.flatMap fun id => le 8 id.toNat

/-- `write_ids_file`; a file that gets too long is an I/O error. -/
def writeIdsFile (ids : List UInt64) : Option Bytes :=
  if (idsBytes ids).length ≤ maxFileBytes then some (idsBytes ids) else none

def readIdsFile (bytes : Bytes) (expectedLen : Nat) : Option (List UInt64) := do
  guard (expectedLen * 8 + 16 < 2 ^ 64)
  guard (bytes.length = expectedLen * 8 + 16)
  guard (slice bytes 0 8 = some idsMagic)
  guard (wordAt bytes 8 8 = some expectedLen)
  let ids ← (List.range expectedLen).mapM fun i =>
    (wordAt bytes 8 (16 + i * 8)).map UInt64.ofNat
  guard ids.Nodup
  pure ids

/-! ## Writing -/

structure Copying (F : Type) where
  tree : Tree F
  seenNames : List Name
  seenPaths : List RelPath
  auxiliaries : List CreateAuxiliaryArtifact

/-- One turn of the loop of `copy_auxiliary_artifacts`. -/
def copyArtifact (state : Copying F) (artifact : AuxiliaryArtifactDeclaration F) :
    Option (Copying F) := do
  let name := trim artifact.name
  guard (name ≠ [])
  guard (name ∉ state.seenNames)
  let path ← validateBundleRelativePath artifact.bundlePath
  guard (path ∉ [[manifestFile], [indexFile], [signFile], [idsFile]])
  guard (path ∉ state.seenPaths)
  guard (state.tree path).isNone
  let tree ← state.tree.createDirAll path.dropLast
  let content ← artifact.source
  pure {
    tree := tree.write path content
    seenNames := name :: state.seenNames
    seenPaths := path :: state.seenPaths
    auxiliaries := state.auxiliaries ++ [⟨name, path, artifact.required⟩] }

def copyAuxiliaryArtifacts (tree : Tree F) (auxiliaries : List CreateAuxiliaryArtifact)
    (artifacts : List (AuxiliaryArtifactDeclaration F)) : Option (Copying F) :=
  artifacts.foldlM copyArtifact ⟨tree, auxiliaries.map fun artifact => trim artifact.name, [],
    auxiliaries⟩

/-- The artifacts that an index brings along. -/
def ownAuxiliaries (sign : Option (SignBitmap S)) (ids : Option (List UInt64)) :
    List CreateAuxiliaryArtifact :=
  (if sign.isSome then [⟨signAuxName, [signFile], true⟩] else []) ++
    if ids.isSome then [⟨idsAuxName, [idsFile], true⟩] else []

/-- The files that an index writes. -/
def ownFiles (vendor : Vendor F M L R S) (rankquant : RankQuant R) (sign : Option (SignBitmap S))
    (ids : Option Bytes) : Tree F :=
  let tree := Tree.empty.write [indexFile] (vendor.writeRank rankquant)
  let tree := sign.elim tree fun sign => tree.write [signFile] (vendor.writeSign sign)
  ids.elim tree fun ids => tree.write [idsFile] (vendor.ofBytes ids)

/-- `write_bundle_contents`. -/
def writeBundleContents (vendor : Vendor F M L R S) (rankquant : RankQuant R)
    (sign : Option (SignBitmap S)) (ids : Option (List UInt64)) (options : CreateManifestOptions L)
    (artifacts : List (AuxiliaryArtifactDeclaration F)) : Option (Bundle F M) := do
  let idsContent ← ids.elim (some none) fun ids => (writeIdsFile ids).map some
  let tree := ownFiles vendor rankquant sign idsContent
  guard options.auxiliaryArtifacts.isEmpty
  let copied ← copyAuxiliaryArtifacts tree (ownAuxiliaries sign ids) artifacts
  let manifest ← vendor.createManifest options.limits copied.tree copied.auxiliaries
  -- a declared path below `manifest.json` has made a directory of it
  guard (copied.tree [manifestFile]).isNone
  pure ⟨manifest, copied.tree⟩

/-- `write_bundle`, whose verified directory is then moved into place. -/
def writeBundle (vendor : Vendor F M L R S) (rankquant : RankQuant R)
    (sign : Option (SignBitmap S)) (ids : Option (List UInt64)) (options : CreateManifestOptions L)
    (artifacts : List (AuxiliaryArtifactDeclaration F)) : Option (Bundle F M) := do
  let bundle ← writeBundleContents vendor rankquant sign ids options artifacts
  guard (vendor.verifyForLoad options.limits bundle).isSome
  pure bundle

/-! ## Opening -/

structure LoadedVerifiedBundle (R S : Type) where
  rankquant : RankQuant R
  sign : Option (SignBitmap S)
  idsPath : Option RelPath

/-- `auxiliary_path`: a repeated name and a name without a verified path are errors. -/
def auxiliaryPath (plan : VerifiedLoadPlan) (name : Name) : Option (Option RelPath) :=
  match plan.auxiliaryArtifacts.filter fun artifact => artifact.1 = name with
  | [] => some none
  | [(_, path)] => path.map some
  | _ => none

/-- The sign store under a path, if there is one. -/
def loadSignAt (vendor : Vendor F M L R S) (tree : Tree F) (rankquant : RankQuant R) :
    Option RelPath → Option (Option (SignBitmap S))
  | none => some none
  | some path => do
    let sign ← (tree.read path).bind vendor.loadSign
    guard (sign.dim = rankquant.dim ∧ sign.rows.length = rankquant.rows.length)
    pure (some sign)

/-- `load_verified_bundle` with `SignLoadPolicy::Any` and no expected shape. -/
def loadVerifiedBundle (vendor : Vendor F M L R S) (limits : L) (bundle : Bundle F M) :
    Option (LoadedVerifiedBundle R S) := do
  let plan ← vendor.verifyForLoad limits bundle
  guard (plan.kind = .rankQuant)
  let bits ← match plan.params with
    | .rankQuant bits => some bits
    | .other => none
  guard (plan.rowIdentityKind = "row_id_identity")
  let rankquant ← (bundle.tree.read plan.artifactPath).bind vendor.loadRank
  guard (plan.dim = rankquant.dim ∧ plan.vectorCount = rankquant.len ∧ bits = rankquant.bits ∧
    plan.rowCount = rankquant.len)
  let signPath ← auxiliaryPath plan signAuxName
  let sign ← loadSignAt vendor bundle.tree rankquant signPath
  let idsPath ← auxiliaryPath plan idsAuxName
  pure ⟨rankquant, sign, idsPath⟩

end OrdinalDB.Artifacts
