import OrdinalDB.Bundle.Directory

/-!
# Loading a bundle, read by read

`recover_bundle_if_missing` and `load_bundle` of `ordinaldb/src/io.rs` with the
calls of `OrdinalIndex::load` and `IdMapIndex::load` around them, one
filesystem step at a time. Every step goes through the path of the target, so
another party can exchange the bundle between any two.

A bundle is its artifacts; its manifest records their digests and the shape of
the rank artifact. What is in a file is known through `Codec` only.
-/

namespace OrdinalDB.Bundle

inductive Artifact
  | rank
  | sign
  | ids
deriving DecidableEq, Repr

abbrev Files (F : Type) := Artifact → Option F

/-- What a load computes from file contents. -/
structure Codec (F H S : Type) where
  digest : F → H
  /-- Dimension, bits and row count of a rank artifact. -/
  shape : F → S
  signCompatible : S → Bool
  /-- A sign artifact has the dimension and rows of a rank artifact. -/
  signFits : F → F → Bool
  /-- An ID artifact has as many distinct IDs as a rank artifact has rows. -/
  idsFit : F → F → Bool

inductive IndexKind
  | ordinal
  | idMap
deriving DecidableEq, Repr

inductive LoadPc (F : Type)
  | inspect                                            -- `symlink_metadata(path)`
  | list                                               -- `read_dir(parent)`
  | stat (todo found : List Name)                      -- `symlink_metadata(entry)`
  | attempt (candidates : List Name)                   -- `verify_for_load(backup)`
  | recover (backup : Name)                            -- `rename_path(backup, path)`
  | manifest                                           -- `verify_for_load(path)`: the manifest
  | verify (manifest : Files F) (todo : List Artifact) -- `verify_for_load(path)`: the artifacts
  | loadRank (manifest : Files F)                      -- `RankQuant::load`
  | loadSign (manifest : Files F) (rank : F)           -- `SignBitmap::load`
  | loadIds (manifest : Files F) (rank : F) (sign : Option F) -- `read_ids_file`
  | returned (result : Option (Files F))

variable {F H S : Type} [DecidableEq H] [DecidableEq S]

def collect (rank : F) (sign ids : Option F) : Files F
  | .rank => some rank
  | .sign => sign
  | .ids => ids

/-- Open an artifact under the target. -/
def readFile (target : Name) (dir : Dir (Files F)) (artifact : Artifact) : Option F :=
  match dir.lookup target with
  | some (.bundle files) => files artifact
  | _ => none

namespace LoadPc

/-- Between the manifest and the last artifact. -/
def reading : LoadPc F → Bool
  | verify .. | loadRank .. | loadSign .. | loadIds .. => true
  | _ => false

/-- A load from its start to its answer; `returned none` is an error. -/
def next (codec : Codec F H S) (kind : IndexKind) (target : Name) (modifiedNanos : Name → Nat)
    (dir : Dir (Files F)) : LoadPc F → LoadPc F × Dir (Files F)
  | inspect =>
    (match dir.lookup target with
      | some .symlink => returned none
      | some _ => manifest
      | none => list, dir)
  | list => (stat (dir.keys.filter fun name => IsBackup target name) [], dir)
  | stat [] found => (attempt (newestFirst target modifiedNanos found), dir)
  | stat (name :: todo) found =>
    (match dir.lookup name with
      | none | some .symlink => returned none
      | some .file => stat todo found
      | some _ => stat todo (found ++ [name]), dir)
  | attempt [] => (manifest, dir)
  | attempt (backup :: rest) =>
    (if (dir.lookup backup).any Node.verifyForLoad then recover backup else attempt rest, dir)
  | recover backup =>
    match dir.rename backup target with
    | some dir' => (manifest, dir')
    | none => (returned none, dir)
  | manifest =>
    (match dir.lookup target with
      | some (.bundle files) => verify files [.rank, .sign, .ids]
      | _ => returned none, dir)
  | verify files [] => (loadRank files, dir)
  | verify files (artifact :: todo) =>
    (match files artifact with
      | none => verify files todo
      | some declared =>
        if (readFile target dir artifact).map codec.digest = some (codec.digest declared) then
          verify files todo
        else returned none, dir)
  | loadRank files =>
    (match readFile target dir .rank with
      | none => returned none
      | some rank =>
        if (files .rank).map codec.shape = some (codec.shape rank) then loadSign files rank
        else returned none, dir)
  | loadSign files rank =>
    (match files .sign with
      | some _ =>
        match readFile target dir .sign with
        | some sign => if codec.signFits rank sign then loadIds files rank (some sign) else returned none
        | none => returned none
      | none =>
        if codec.signCompatible (codec.shape rank) then returned none else loadIds files rank none,
      dir)
  | loadIds files rank sign =>
    (match kind, files .ids with
      | .ordinal, none => returned (some (collect rank sign none))
      | .idMap, some _ =>
        match readFile target dir .ids with
        | some ids =>
          if codec.idsFit rank ids then returned (some (collect rank sign (some ids)))
          else returned none
        | none => returned none
      | _, _ => returned none, dir)
  | returned result => (returned result, dir)

end LoadPc

end OrdinalDB.Bundle
