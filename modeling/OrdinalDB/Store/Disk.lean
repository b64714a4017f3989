import OrdinalDB.Lib.Table
import OrdinalDB.Lib.Text

/-!
# The vector artifacts of an adapter root

Index paths, generation names and the part of an adapter root that holds vector
bundles: the legacy `index.odb` and the `vectors/` directory. A directory is
known by what verifying the manifest inside it reports.
-/

namespace OrdinalDB.Store

open Text

/-! ## Paths -/

def indexDir : String := "index.odb"

def vectorsDir : String := "vectors"

def u64Bound : Nat := 2 ^ 64

/-- The generation of a `g{id:012}.odb` name. -/
def parseGenerationDir (name : String) : Option Nat :=
  match name.toList with
  | 'g' :: rest =>
    if rest.length = 16 ∧ rest.drop 12 = ".odb".toList then
      (parseDecimal u64Bound (rest.take 12)).filter fun id => 0 < id
    else none
  | _ => none

/-- `_generation_id_from_dir_name` of Python, where a digit is one of `str.isdecimal` of the oldest
interpreter. -/
def generationIdFromDirName (name : String) : Option Nat :=
  let text := name.toList
  let digits := (text.drop 1).take (text.length - 5)
  if text.head? = some 'g' ∧ text.drop (text.length - 4) = ".odb".toList ∧ digits.length = 12 then do
    let values ← digits.mapM decimalValue
    (some (values.foldl (fun value digit => 10 * value + digit) 0)).filter (0 < ·)
  else none

inductive Component
  | curDir
  | parentDir
  | normal (name : String)
deriving DecidableEq, Repr

/-- `Path::components` of a relative path: a `.` counts only in front. -/
def components (value : String) : List Component :=
  (value.toList.splitOn '/').zipIdx.filterMap fun (part, position) =>
    if part = [] then none
    else if part = ['.'] then if position = 0 then some .curDir else none
    else if part = ['.', '.'] then some .parentDir
    else some (.normal (String.ofList part))

def validateRelativePath (value : String) : Bool :=
  let text := value.toList
  text ≠ [] && !text.contains '\\' && (splitOnce "//".toList text).isNone &&
    text.getLast? ≠ some '/' && text.head? ≠ some '/' &&
    (components value).all fun component =>
      match component with
      | .normal _ => true
      | _ => false

/-- Where a bundle lives. -/
inductive Location
  | index
  | vectors (name : String)
deriving DecidableEq, Repr

/-- `validate_index_path`, with the place that the path names. -/
def locate (value : String) : Option Location :=
  if !validateRelativePath value then none
  else if value = indexDir then some .index
  else
    match components value with
    | [.normal first, .normal second] =>
      if first = vectorsDir ∧ (parseGenerationDir second).isSome then some (.vectors second) else none
    | _ => none

def validateIndexPath (value : String) : Bool := (locate value).isSome

def generationIdFromIndexPath (value : String) : Option Nat :=
  match locate value with
  | some .index => some 1
  | some (.vectors name) => parseGenerationDir name
  | none => none

/-! ## The directory -/

/-- What `verify_for_load` and `sha256_file` report of a RankQuant bundle with
`row_id_identity` rows whose manifest is not too large. -/
structure Bundle where
  bits : Nat
  dim : Nat
  vectorCount : Nat
  manifestSha256 : String
  manifestSizeBytes : Nat
deriving DecidableEq, Repr

/-- An entry; a directory with `none` does not verify as such a bundle. -/
inductive Node
  | dir (bundle : Option Bundle)
  | file
  | symlink (resolves : Bool)
deriving DecidableEq, Repr

namespace Node

/-- `Path::try_exists` follows symlinks. -/
def exists? : Node → Bool
  | symlink resolves => resolves
  | _ => true

def isSymlink : Node → Bool
  | symlink _ => true
  | _ => false

def bundle : Node → Option Bundle
  | dir bundle => bundle
  | _ => none

end Node

/-- The vector artifacts under a root; `vectors` is `none` while the directory is missing. -/
structure Disk where
  index : Option Node
  vectors : Option (Table String Node)

namespace Disk

def node (disk : Disk) : Location → Option Node
  | .index => disk.index
  | .vectors name => disk.vectors.bind fun entries => entries[name]?

/-- The verified bundle that an index path names: `active_generation_manifest_path` and the
checks on the manifest. -/
def bundle (disk : Disk) (indexPath : String) : Option Bundle := do
  let location ← locate indexPath
  let node ← disk.node location
  node.bundle

def exists? (disk : Disk) (location : Location) : Bool := (disk.node location).any Node.exists?

end Disk

/-- `reject_empty_lazy_vector_artifacts` passes: apart from the prepared generation there are no
committed generations and no symlinks. -/
def noVectorArtifacts (disk : Disk) (indexPath : String) (allowedPrepared : Option String) : Bool :=
  ([indexPath, indexDir].all fun relative =>
    !(locate relative).any disk.exists? || allowedPrepared = some relative) &&
  disk.vectors.all fun entries => entries.toList.all fun (name, node) =>
    allowedPrepared.bind locate = some (.vectors name) ||
      (!node.isSymlink && (parseGenerationDir name).isNone)

end OrdinalDB.Store
