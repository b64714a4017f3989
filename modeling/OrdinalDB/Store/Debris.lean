import OrdinalDB.Store.DebrisNames
import OrdinalDB.Store.Generations

/-!
# Crash debris under `vectors/`

`scan_generation_directory` and `remove_generation_debris` of
`ordinaldb-adapter-store/src/lib.rs` over a tree of directories with symlinks,
under the writer lock and with file operations that work.

A removal is confined to one entry of `vectors/` that is not a generation, and
it removes whatever the scan reports, but for two things (`cleaned_iff`): the
scan reports names with a backslash, which the removal refuses as paths, and the
removal does not look at `vectors/` itself, which may be a symlink.
-/

namespace OrdinalDB.Debris

open Store Text

/-! ## Directories -/

/-- The names from the top of the file system to a directory. -/
abbrev Path := List String

/-- What following a path ends at. -/
inductive Target
  | missing
  | notDirectory
  | directory (path : Path)
deriving DecidableEq, Repr

inductive Entry
  | file
  | directory
  | symlink (target : Target)
deriving DecidableEq, Repr

namespace Entry

def isSymlink : Entry → Bool
  | symlink _ => true
  | _ => false

def isDirectory : Entry → Bool
  | directory => true
  | _ => false

end Entry

/-- What each directory lists; a path that is no directory lists nothing. -/
structure FileTree where
  list : Path → Table String Entry
  names : ∀ path name, name ∈ list path → EntryName name ∧ '\x00' ∉ name.toList

namespace FileTree

/-- The entry is at or below another one. -/
def Below (dir : Path) (name : String) (path : Path) (other : String) : Prop :=
  dir ++ [name] <+: path ++ [other]

/-- `remove_file`, or `remove_dir_all` of a directory. -/
def remove (tree : FileTree) (dir : Path) (name : String) : FileTree where
  list path :=
    if dir ++ [name] <+: path then ∅
    else if path = dir then (tree.list dir).erase name
    else tree.list path
  names path other h := by
    split at h
    · exact absurd h Std.ExtTreeMap.not_mem_empty
    · split at h
      · exact tree.names dir other (Std.ExtTreeMap.mem_of_mem_erase h)
      · exact tree.names path other h

/-- What following `vectors/` of a root ends at. -/
def vectorsTarget (tree : FileTree) (root : Path) : Target :=
  match (tree.list root)[vectorsDir]? with
  | none => .missing
  | some .file => .notDirectory
  | some .directory => .directory (root ++ [vectorsDir])
  | some (.symlink target) => target

/-- `symlink_metadata` of an entry of `vectors/`, with the directory that lists it; the outer
option is the error. -/
def statEntry (tree : FileTree) (root : Path) (name : String) : Option (Option (Path × Entry)) :=
  if '\x00' ∈ name.toList then none
  else
    match tree.vectorsTarget root with
    | .missing => some none
    | .notDirectory => none
    | .directory dir => some ((tree.list dir)[name]?.map fun entry => (dir, entry))

/-- `sync_directory` of `vectors/`. -/
def syncVectors (tree : FileTree) (root : Path) : Option Unit :=
  match tree.vectorsTarget root with
  | .missing => none
  | _ => some ()

end FileTree

/-! ## The scan -/

structure GenerationDebrisEntry where
  path : String
  generationId : Option Nat
deriving DecidableEq, Repr

structure GenerationDirectoryScan where
  generationPaths : List String
  debris : List GenerationDebrisEntry
deriving DecidableEq, Repr

/-- No symlink, and a directory if it has a generation's name. -/
def admissible (row : String × Entry) : Bool :=
  !row.2.isSymlink && ((parseGenerationDir row.1).isNone || row.2.isDirectory)

def debrisEntry (name : String) : GenerationDebrisEntry :=
  { path := entryPath name, generationId := parseGenerationDebrisName name }

/-- A table lists its entries in ascending order. -/
def scanGenerationDirectory (tree : FileTree) (root : Path) : Option GenerationDirectoryScan :=
  match (tree.list root)[vectorsDir]? with
  | none => some { generationPaths := [], debris := [] }
  | some .directory =>
    let entries := tree.list (root ++ [vectorsDir])
    if entries.toList.all admissible then
      some {
        generationPaths :=
          (entries.keys.filter fun name => (parseGenerationDir name).isSome).map entryPath
        debris :=
          (entries.keys.filter fun name => (parseGenerationDir name).isNone).map debrisEntry }
    else none
  | some _ => none

/-! ## The removal -/

/-- `remove_generation_debris`, with the file tree that it leaves. -/
def removeGenerationDebris (tree : FileTree) (root : Path) (debrisPath : String) :
    Option Unit × FileTree :=
  if !validateRelativePath debrisPath then (none, tree)
  else
    match entryOfPath debrisPath with
    | none => (none, tree)
    | some name =>
      if (parseGenerationDir name).isSome then (none, tree)
      else
        match tree.statEntry root name with
        | none => (none, tree)
        | some none => (some (), tree)
        | some (some (_, .symlink _)) => (none, tree)
        | some (some (dir, _)) =>
          ((tree.remove dir name).syncVectors root, tree.remove dir name)

/-! ## The promise -/

section

variable {tree tree' : FileTree} {root dir path : Path} {name other debrisPath : String}
  {entry : Entry} {scan : GenerationDirectoryScan} {outcome : Option Unit}

/-- The names under `vectors/`, unless it is a symlink. -/
def vectorNames (tree : FileTree) (root : Path) : List String :=
  match (tree.list root)[vectorsDir]? with
  | some .directory => (tree.list (root ++ [vectorsDir])).keys
  | _ => []

/-- Each entry is reported once, as a generation or as debris. -/
structure Classified (tree : FileTree) (root : Path) (scan : GenerationDirectoryScan) : Prop where
  once : (scan.generationPaths ++ scan.debris.map GenerationDebrisEntry.path).Perm
    ((vectorNames tree root).map entryPath)
  generation : ∀ name ∈ vectorNames tree root,
    entryPath name ∈ scan.generationPaths ↔ (parseGenerationDir name).isSome
  debris : ∀ name ∈ vectorNames tree root,
    entryPath name ∈ scan.debris.map GenerationDebrisEntry.path ↔ parseGenerationDir name = none

/-- The entry lies directly under a `vectors/` that is no symlink, is no symlink itself and no
generation. -/
structure Reclaimable (tree : FileTree) (root : Path) (name : String) : Prop where
  vectors : (tree.list root)[vectorsDir]? = some .directory
  listed : ∃ entry, (tree.list (root ++ [vectorsDir]))[name]? = some entry ∧ ¬entry.isSymlink
  notGeneration : parseGenerationDir name = none

/-- The entry is gone with what lies below it, and nothing else is. -/
structure RemovedOnly (tree tree' : FileTree) (dir : Path) (name : String) : Prop where
  gone : (tree'.list dir)[name]? = none
  others : ∀ path other, ¬FileTree.Below dir name path other →
    (tree'.list path)[other]? = (tree.list path)[other]?

/-- What the scan and the removal promise of a root. -/
structure Cleaned (tree : FileTree) (root : Path) : Prop where
  classified : ∀ scan, scanGenerationDirectory tree root = some scan → Classified tree root scan
  confined : ∀ debrisPath outcome tree',
    removeGenerationDebris tree root debrisPath = (outcome, tree') →
      tree' = tree ∨ outcome = some () ∧ ∃ name, Reclaimable tree root name ∧
        RemovedOnly tree tree' (root ++ [vectorsDir]) name
  removes : ∀ scan, scanGenerationDirectory tree root = some scan → ∀ entry ∈ scan.debris,
    ∃ name tree', entry.path = entryPath name ∧
      removeGenerationDebris tree root entry.path = (some (), tree') ∧
      (tree'.list (root ++ [vectorsDir]))[name]? = none
  repeated : ∀ debrisPath tree', removeGenerationDebris tree root debrisPath = (some (), tree') →
    removeGenerationDebris tree' root debrisPath = (some (), tree')

/-! ## One removal -/

theorem FileTree.list_remove_of_not_below (h : ¬FileTree.Below dir name path other) :
    ((tree.remove dir name).list path)[other]? = (tree.list path)[other]? := by
  have hnot : ¬dir ++ [name] <+: path := fun hbelow =>
    h (hbelow.trans (List.prefix_append path [other]))
  show (if dir ++ [name] <+: path then ∅ else if path = dir then (tree.list dir).erase name
    else tree.list path : Table String Entry)[other]? = _
  rw [if_neg hnot]
  split
  next hdir =>
    subst hdir
    have hname : name ≠ other := by
      rintro rfl
      exact h (List.prefix_refl _)
    rw [Std.ExtTreeMap.getElem?_erase, if_neg (by rwa [Std.compare_eq_iff_eq])]
  next => rfl

theorem FileTree.list_remove_of_below (h : FileTree.Below dir name path other) :
    ((tree.remove dir name).list path)[other]? = none := by
  show (if dir ++ [name] <+: path then ∅ else if path = dir then (tree.list dir).erase name
    else tree.list path : Table String Entry)[other]? = none
  rcases List.prefix_concat_iff.mp h with heq | hbelow
  · obtain ⟨rfl, hname⟩ := List.append_inj' heq rfl
    obtain rfl := List.singleton_inj.mp hname
    have hnot : ¬dir ++ [name] <+: dir := fun hbelow => by
      have hlength := hbelow.length_le
      rw [List.length_append] at hlength
      exact Nat.not_succ_le_self _ hlength
    rw [if_neg hnot, if_pos rfl, Std.ExtTreeMap.getElem?_erase_self]
  · rw [if_pos hbelow]
    exact Std.ExtTreeMap.getElem?_empty

theorem FileTree.list_remove_self : ((tree.remove dir name).list dir)[name]? = none :=
  FileTree.list_remove_of_below (List.prefix_refl _)

theorem removedOnly_remove : RemovedOnly tree (tree.remove dir name) dir name where
  gone := FileTree.list_remove_self
  others _ _ := FileTree.list_remove_of_not_below

/-- The entry `vectors/` of a root is not below an entry of it. -/
theorem not_below_vectors : ¬FileTree.Below (root ++ [vectorsDir]) name root vectorsDir := by
  intro h
  have hlength := h.length_le
  simp only [List.length_append] at hlength
  exact Nat.not_succ_le_self _ hlength

theorem statEntry_eq_some : tree.statEntry root name = some (some (dir, entry)) ↔
    '\x00' ∉ name.toList ∧ tree.vectorsTarget root = .directory dir ∧
      (tree.list dir)[name]? = some entry := by
  unfold FileTree.statEntry
  split
  next hnul => simp [hnul]
  next hnul =>
    split
    next htarget => simp [htarget]
    next htarget => simp [htarget]
    next found htarget =>
      rw [htarget, Option.some.injEq, Option.map_eq_some_iff]
      constructor
      · rintro ⟨entry, hentry, heq⟩
        obtain ⟨rfl, rfl⟩ := Prod.mk.inj heq
        exact ⟨hnul, rfl, hentry⟩
      · rintro ⟨-, hdir, hentry⟩
        obtain rfl := Target.directory.inj hdir
        exact ⟨entry, hentry, rfl⟩

theorem statEntry_eq_missing : tree.statEntry root name = some none ↔ '\x00' ∉ name.toList ∧
    (tree.vectorsTarget root = .missing ∨
      ∃ dir, tree.vectorsTarget root = .directory dir ∧ (tree.list dir)[name]? = none) := by
  unfold FileTree.statEntry
  split
  next hnul => simp [hnul]
  next hnul =>
    split
    next htarget => simp [htarget, hnul]
    next htarget => simp [htarget]
    next found htarget => simp [htarget, hnul]

theorem removeGenerationDebris_eq (hpath : validateRelativePath debrisPath)
    (hname : entryOfPath debrisPath = some name) (hparse : parseGenerationDir name = none) :
    removeGenerationDebris tree root debrisPath =
      match tree.statEntry root name with
      | none => (none, tree)
      | some none => (some (), tree)
      | some (some (_, .symlink _)) => (none, tree)
      | some (some (dir, _)) =>
        ((tree.remove dir name).syncVectors root, tree.remove dir name) := by
  unfold removeGenerationDebris
  rw [if_neg (by simp [hpath]), hname]
  dsimp only
  rw [if_neg (by simp [hparse])]

theorem mem_splitOn_of_component (h : .normal name ∈ components debrisPath) :
    name.toList ∈ debrisPath.toList.splitOn '/' := by
  obtain ⟨⟨part, position⟩, hmem, hpart⟩ := List.mem_filterMap.mp h
  have hlisted := List.fst_mem_of_mem_zipIdx hmem
  dsimp only at hpart
  by_cases hempty : part = []
  · rw [if_pos hempty] at hpart
    cases hpart
  by_cases hcur : part = ['.']
  · rw [if_neg hempty, if_pos hcur] at hpart
    split at hpart <;> cases hpart
  by_cases hparent : part = ['.', '.']
  · rw [if_neg hempty, if_neg hcur, if_pos hparent] at hpart
    cases hpart
  rw [if_neg hempty, if_neg hcur, if_neg hparent] at hpart
  obtain rfl := Component.normal.inj (Option.some.inj hpart)
  rwa [String.toList_ofList]

/-- An entry that an accepted path names has no backslash in its name. -/
theorem backslash_not_mem (hpath : validateRelativePath debrisPath)
    (hname : entryOfPath debrisPath = some name) : '\\' ∉ name.toList := by
  have hcomponent : .normal name ∈ components debrisPath := by
    unfold entryOfPath at hname
    split at hname
    next first second hcomponents =>
      split at hname
      next =>
        obtain rfl := Option.some.inj hname
        rw [hcomponents]
        exact List.mem_cons_of_mem _ List.mem_cons_self
      next => cases hname
    next => cases hname
  intro hback
  have hmem := mem_of_mem_splitOn (mem_splitOn_of_component hcomponent) hback
  simp [validateRelativePath, hmem] at hpath

/-- Everything that a removal may do. -/
theorem removeGenerationDebris_cases
    (h : removeGenerationDebris tree root debrisPath = (outcome, tree')) :
    (outcome = none ∧ tree' = tree) ∨ ∃ name, validateRelativePath debrisPath ∧
      entryOfPath debrisPath = some name ∧ parseGenerationDir name = none ∧
      '\x00' ∉ name.toList ∧
      ((outcome = some () ∧ tree' = tree ∧ tree.statEntry root name = some none) ∨
        ∃ dir entry, tree.vectorsTarget root = .directory dir ∧
          (tree.list dir)[name]? = some entry ∧ ¬entry.isSymlink ∧
          tree' = tree.remove dir name ∧ outcome = tree'.syncVectors root) := by
  by_cases hpath : validateRelativePath debrisPath
  case neg =>
    unfold removeGenerationDebris at h
    rw [if_pos (by simpa using hpath)] at h
    obtain ⟨rfl, rfl⟩ := Prod.mk.inj h
    exact .inl ⟨rfl, rfl⟩
  cases hname : entryOfPath debrisPath with
  | none =>
    unfold removeGenerationDebris at h
    rw [if_neg (by simp [hpath]), hname] at h
    obtain ⟨rfl, rfl⟩ := Prod.mk.inj h
    exact .inl ⟨rfl, rfl⟩
  | some name =>
    cases hparse : parseGenerationDir name with
    | some id =>
      unfold removeGenerationDebris at h
      rw [if_neg (by simp [hpath]), hname] at h
      dsimp only at h
      rw [if_pos (by simp [hparse])] at h
      obtain ⟨rfl, rfl⟩ := Prod.mk.inj h
      exact .inl ⟨rfl, rfl⟩
    | none =>
      rw [removeGenerationDebris_eq hpath hname hparse] at h
      have hnul : ∀ {found}, tree.statEntry root name = some found → '\x00' ∉ name.toList := by
        intro found hstat hmem
        unfold FileTree.statEntry at hstat
        rw [if_pos hmem] at hstat
        cases hstat
      split at h
      · obtain ⟨rfl, rfl⟩ := Prod.mk.inj h
        exact .inl ⟨rfl, rfl⟩
      · next hstat =>
        obtain ⟨rfl, rfl⟩ := Prod.mk.inj h
        exact .inr ⟨name, hpath, rfl, hparse, hnul hstat, .inl ⟨rfl, rfl, hstat⟩⟩
      · obtain ⟨rfl, rfl⟩ := Prod.mk.inj h
        exact .inl ⟨rfl, rfl⟩
      · next dir entry hlink hstat =>
        obtain ⟨rfl, rfl⟩ := Prod.mk.inj h
        obtain ⟨-, htarget, hentry⟩ := statEntry_eq_some.mp hstat
        refine .inr ⟨name, hpath, rfl, hparse, hnul hstat, .inr ⟨dir, entry, htarget, hentry,
          ?_, rfl, rfl⟩⟩
        cases entry with
        | symlink target => exact absurd rfl (hlink target)
        | file => exact Bool.false_ne_true
        | directory => exact Bool.false_ne_true

/-- A removal outside the way to `vectors/` leaves what `vectors/` is. -/
theorem vectorsTarget_of_not_below {dir : Path}
    (h : ¬FileTree.Below dir name root vectorsDir) :
    (tree.remove dir name).vectorsTarget root = tree.vectorsTarget root := by
  unfold FileTree.vectorsTarget
  rw [FileTree.list_remove_of_not_below h]

theorem vectorsTarget_of_directory (h : (tree.list root)[vectorsDir]? = some .directory) :
    tree.vectorsTarget root = .directory (root ++ [vectorsDir]) := by
  unfold FileTree.vectorsTarget
  rw [h]

/-- An entry of `vectors/` that is no generation is removed, if a path can name it. -/
theorem removeGenerationDebris_reclaimable (h : Reclaimable tree root name)
    (hback : '\\' ∉ name.toList) :
    removeGenerationDebris tree root (entryPath name) =
      (some (), tree.remove (root ++ [vectorsDir]) name) := by
  obtain ⟨entry, hentry, hlink⟩ := h.listed
  have hmem : name ∈ tree.list (root ++ [vectorsDir]) :=
    Std.ExtTreeMap.mem_iff_isSome_getElem?.mpr (by rw [hentry]; rfl)
  obtain ⟨hname, hnul⟩ := tree.names _ _ hmem
  have htarget := vectorsTarget_of_directory h.vectors
  have hstat : tree.statEntry root name = some (some (root ++ [vectorsDir], entry)) :=
    statEntry_eq_some.mpr ⟨hnul, htarget, hentry⟩
  have hsync : (tree.remove (root ++ [vectorsDir]) name).syncVectors root = some () := by
    unfold FileTree.syncVectors
    rw [vectorsTarget_of_not_below not_below_vectors, htarget]
  rw [removeGenerationDebris_eq ((validateRelativePath_entryPath hname).mpr hback)
    (entryOfPath_entryPath hname) h.notGeneration, hstat]
  cases entry with
  | symlink target => exact absurd rfl hlink
  | file => exact Prod.ext hsync rfl
  | directory => exact Prod.ext hsync rfl

/-- After a removal that went through there is nothing left to do. -/
theorem removeGenerationDebris_again
    (h : removeGenerationDebris tree root debrisPath = (some (), tree')) :
    removeGenerationDebris tree' root debrisPath = (some (), tree') := by
  rcases removeGenerationDebris_cases h with ⟨hfail, -⟩ | ⟨name, hpath, hname, hparse, hnul, hrun⟩
  · cases hfail
  have hmissing : tree'.statEntry root name = some none := by
    rcases hrun with ⟨-, rfl, hstat⟩ | ⟨dir, entry, htarget, -, -, rfl, hsync⟩
    · exact hstat
    · refine statEntry_eq_missing.mpr ⟨hnul, .inr ⟨dir, ?_, FileTree.list_remove_self⟩⟩
      -- `vectors/` is still there to be synchronized, so it is what it was
      have hnot : ¬FileTree.Below dir name root vectorsDir := by
        intro hbelow
        unfold FileTree.syncVectors FileTree.vectorsTarget at hsync
        rw [FileTree.list_remove_of_below hbelow] at hsync
        cases hsync
      rw [vectorsTarget_of_not_below hnot, htarget]
  rw [removeGenerationDebris_eq hpath hname hparse, hmissing]

/-! ## The scan -/

theorem scan_cases (h : scanGenerationDirectory tree root = some scan) :
    scan.generationPaths =
        ((vectorNames tree root).filter fun name => (parseGenerationDir name).isSome).map
          entryPath ∧
      scan.debris =
        ((vectorNames tree root).filter fun name => (parseGenerationDir name).isNone).map
          debrisEntry ∧
      ∀ (name : String) (entry : Entry), (tree.list root)[vectorsDir]? = some .directory →
        (tree.list (root ++ [vectorsDir]))[name]? = some entry → ¬entry.isSymlink := by
  unfold scanGenerationDirectory at h
  unfold vectorNames
  split at h
  next hmissing =>
    obtain rfl := Option.some.inj h
    rw [hmissing]
    exact ⟨rfl, rfl, fun _ _ hdir => by cases hdir⟩
  next hdir =>
    dsimp only at h
    split at h
    next hall =>
      obtain rfl := Option.some.inj h
      rw [hdir]
      refine ⟨rfl, rfl, fun name entry _ hentry => ?_⟩
      have hrow := List.all_eq_true.mp hall (name, entry)
        (Std.ExtTreeMap.mem_toList_iff_getElem?_eq_some.mpr hentry)
      have hnot := (Bool.and_eq_true_iff.mp hrow).1
      exact fun hlink => absurd hlink (by simpa using hnot)
    next => cases h
  next => cases h

theorem path_debrisEntry : GenerationDebrisEntry.path ∘ debrisEntry = entryPath := rfl

theorem classified_of_scan (h : scanGenerationDirectory tree root = some scan) :
    Classified tree root scan := by
  obtain ⟨hgenerations, hdebris, -⟩ := scan_cases h
  have hpaths : scan.debris.map GenerationDebrisEntry.path =
      ((vectorNames tree root).filter fun name => (parseGenerationDir name).isNone).map
        entryPath := by
    rw [hdebris, List.map_map, path_debrisEntry]
  have hmem : ∀ {keep : String → Bool} {name}, name ∈ vectorNames tree root →
      (entryPath name ∈ ((vectorNames tree root).filter keep).map entryPath ↔ keep name) := by
    intro keep name hname
    rw [List.mem_map_of_injective entryPath_injective, List.mem_filter]
    exact and_iff_right hname
  exact {
    once := by
      rw [hgenerations, hpaths, ← List.map_append]
      refine List.Perm.map entryPath ?_
      have hsplit : (fun name => (parseGenerationDir name).isNone) =
          fun name => !(parseGenerationDir name).isSome := by
        funext name
        exact (Option.not_isSome (parseGenerationDir name)).symm
      rw [hsplit]
      exact List.filter_append_perm _ _
    generation := fun name hname => by
      rw [hgenerations]
      exact hmem hname
    debris := fun name hname => by
      rw [hpaths, hmem hname]
      exact Option.isNone_iff_eq_none }

/-! ## The scan of a collection -/

def Entry.node : Entry → Node
  | file => .file
  | directory => .dir none
  | symlink target => .symlink (decide (target ≠ .missing))

/-- The tree as a collection of generations sees it. -/
def vectorsDisk (tree : FileTree) (root : Path) : Disk where
  index := none
  vectors :=
    match (tree.list root)[vectorsDir]? with
    | some .directory => some ((tree.list (root ++ [vectorsDir])).map fun _ entry => entry.node)
    | _ => none

/-- The collection of generations works on the same scan. -/
theorem scan_agrees (h : ∀ entry, (tree.list root)[vectorsDir]? = some entry → entry.isDirectory) :
    (scanGenerationDirectory tree root).map (fun scan =>
        (scan.generationPaths, scan.debris.map GenerationDebrisEntry.path)) =
      (Store.scanGenerationDirectory (vectorsDisk tree root)).map fun scan =>
        (scan.generationPaths, scan.debris) := by
  unfold scanGenerationDirectory Store.scanGenerationDirectory vectorsDisk
  cases hvectors : (tree.list root)[vectorsDir]? with
  | none => rfl
  | some entry =>
    cases entry with
    | file => exact absurd (h _ hvectors) Bool.false_ne_true
    | symlink target => exact absurd (h _ hvectors) Bool.false_ne_true
    | directory =>
      have hrows : (tree.list (root ++ [vectorsDir])).toList.all admissible =
          ((tree.list (root ++ [vectorsDir])).map fun _ entry => entry.node).toList.all
            fun row => !row.2.isSymlink && ((parseGenerationDir row.1).isNone || row.2.isDir) := by
        rw [Std.ExtTreeMap.toList_map, List.all_map]
        refine congrArg (List.all _) (funext fun row => ?_)
        obtain ⟨name, entry⟩ := row
        cases entry <;> rfl
      dsimp only
      rw [Std.ExtTreeMap.keys_map]
      split <;> rename_i hadmitted <;> split <;> rename_i hall
      · rw [List.partition_eq_filter_filter]
        dsimp only [Option.map_some]
        rw [List.map_map, path_debrisEntry]
        have hsplit : (fun name => (parseGenerationDir name).isNone) =
            not ∘ fun name => (parseGenerationDir name).isSome := by
          funext name
          exact (Option.not_isSome (parseGenerationDir name)).symm
        rw [hsplit]
      · exact absurd (hrows.symm.trans hadmitted) hall
      · exact absurd (hrows.trans hall) hadmitted
      · rfl

/-! ## The conditions -/

/-- A `vectors/` that is a symlink leads to no directory with an entry that can be removed. -/
def NoLinkedEntry (tree : FileTree) (root : Path) : Prop :=
  ∀ dir name entry, (tree.list root)[vectorsDir]? = some (.symlink (.directory dir)) →
    (tree.list dir)[name]? = some entry → parseGenerationDir name = none →
      '\\' ∉ name.toList → entry.isSymlink

/-- No debris that the scan reports has a backslash in its name. -/
def NoBackslash (tree : FileTree) (root : Path) : Prop :=
  ∀ name ∈ vectorNames tree root, (scanGenerationDirectory tree root).isSome →
    parseGenerationDir name = none → '\\' ∉ name.toList

theorem mem_vectorNames : name ∈ vectorNames tree root ↔
    (tree.list root)[vectorsDir]? = some .directory ∧
      ∃ entry, (tree.list (root ++ [vectorsDir]))[name]? = some entry := by
  unfold vectorNames
  split
  next hdir =>
    rw [Std.ExtTreeMap.mem_keys, Std.ExtTreeMap.mem_iff_isSome_getElem?, Option.isSome_iff_exists]
    exact (and_iff_right hdir).symm
  next hnot =>
    refine iff_of_false List.not_mem_nil ?_
    rintro ⟨hdir, -⟩
    exact hnot hdir

theorem reclaimable_of_scan (h : scanGenerationDirectory tree root = some scan)
    (hname : name ∈ vectorNames tree root) (hparse : parseGenerationDir name = none) :
    Reclaimable tree root name := by
  obtain ⟨hdir, entry, hentry⟩ := mem_vectorNames.mp hname
  exact ⟨hdir, ⟨entry, hentry, (scan_cases h).2.2 name entry hdir hentry⟩, hparse⟩

theorem confined_of_noLinkedEntry (h : NoLinkedEntry tree root)
    (hrun : removeGenerationDebris tree root debrisPath = (outcome, tree')) :
    tree' = tree ∨ outcome = some () ∧ ∃ name, Reclaimable tree root name ∧
      RemovedOnly tree tree' (root ++ [vectorsDir]) name := by
  rcases removeGenerationDebris_cases hrun with ⟨-, hsame⟩ | ⟨name, hpath, hname, hparse, -, hrun⟩
  · exact .inl hsame
  rcases hrun with ⟨-, hsame, -⟩ | ⟨dir, entry, htarget, hentry, hlink, rfl, rfl⟩
  · exact .inl hsame
  have hdir : (tree.list root)[vectorsDir]? = some .directory ∧ dir = root ++ [vectorsDir] := by
    unfold FileTree.vectorsTarget at htarget
    split at htarget
    next => cases htarget
    next => cases htarget
    next hvectors => exact ⟨hvectors, (Target.directory.inj htarget).symm⟩
    next hvectors =>
      subst htarget
      exact absurd (h dir name entry hvectors hentry hparse (backslash_not_mem hpath hname)) hlink
  obtain ⟨hvectors, rfl⟩ := hdir
  have hsync : (tree.remove (root ++ [vectorsDir]) name).syncVectors root = some () := by
    unfold FileTree.syncVectors
    rw [vectorsTarget_of_not_below not_below_vectors, htarget]
  exact .inr ⟨hsync, name, ⟨hvectors, ⟨entry, hentry, hlink⟩, hparse⟩, removedOnly_remove⟩

theorem removes_of_noBackslash (h : NoBackslash tree root)
    (hscan : scanGenerationDirectory tree root = some scan) {entry : GenerationDebrisEntry}
    (hentry : entry ∈ scan.debris) : ∃ name tree', entry.path = entryPath name ∧
      removeGenerationDebris tree root entry.path = (some (), tree') ∧
      (tree'.list (root ++ [vectorsDir]))[name]? = none := by
  rw [(scan_cases hscan).2.1] at hentry
  obtain ⟨name, hname, rfl⟩ := List.mem_map.mp hentry
  obtain ⟨hlisted, hnone⟩ := List.mem_filter.mp hname
  have hparse : parseGenerationDir name = none := Option.isNone_iff_eq_none.mp hnone
  have hback := h name hlisted (Option.isSome_of_eq_some hscan) hparse
  exact ⟨name, _, rfl,
    removeGenerationDebris_reclaimable (reclaimable_of_scan hscan hlisted hparse) hback,
    FileTree.list_remove_self⟩

theorem noLinkedEntry_of_cleaned (h : Cleaned tree root) : NoLinkedEntry tree root := by
  intro dir name entry hvectors hentry hparse hback
  by_contra hlink
  have hmem : name ∈ tree.list dir :=
    Std.ExtTreeMap.mem_iff_isSome_getElem?.mpr (by rw [hentry]; rfl)
  obtain ⟨hname, hnul⟩ := tree.names _ _ hmem
  have htarget : tree.vectorsTarget root = .directory dir := by
    unfold FileTree.vectorsTarget
    rw [hvectors]
  have hrun : removeGenerationDebris tree root (entryPath name) =
      ((tree.remove dir name).syncVectors root, tree.remove dir name) := by
    rw [removeGenerationDebris_eq ((validateRelativePath_entryPath hname).mpr hback)
      (entryOfPath_entryPath hname) hparse, statEntry_eq_some.mpr ⟨hnul, htarget, hentry⟩]
    cases entry with
    | symlink target => exact absurd rfl hlink
    | file => rfl
    | directory => rfl
  rcases h.confined _ _ _ hrun with hsame | ⟨-, other, hreclaimable, -⟩
  · have hgone : ((tree.remove dir name).list dir)[name]? = none := FileTree.list_remove_self
    rw [hsame, hentry] at hgone
    cases hgone
  · have hdir := hreclaimable.vectors
    rw [hvectors] at hdir
    cases hdir

theorem noBackslash_of_cleaned (h : Cleaned tree root) : NoBackslash tree root := by
  intro name hname hscan hparse hback
  obtain ⟨scan, hscan⟩ := Option.isSome_iff_exists.mp hscan
  have hdebris : debrisEntry name ∈ scan.debris := by
    rw [(scan_cases hscan).2.1]
    exact List.mem_map_of_mem (List.mem_filter.mpr ⟨hname, Option.isNone_iff_eq_none.mpr hparse⟩)
  obtain ⟨-, entry, hentry⟩ := mem_vectorNames.mp hname
  have hmem : name ∈ tree.list (root ++ [vectorsDir]) :=
    Std.ExtTreeMap.mem_iff_isSome_getElem?.mpr (by rw [hentry]; rfl)
  obtain ⟨other, tree', -, hrun, -⟩ := h.removes scan hscan _ hdebris
  have hinvalid : ¬validateRelativePath (entryPath name) := fun hvalid =>
    (validateRelativePath_entryPath (tree.names _ _ hmem).1).mp hvalid hback
  unfold removeGenerationDebris at hrun
  rw [if_pos (by simpa [debrisEntry] using hinvalid)] at hrun
  cases hrun

/-- Cleaning is confined and complete unless `vectors/` is a symlink to entries that can be
removed, or debris has a backslash in its name. -/
theorem cleaned_iff (tree : FileTree) (root : Path) :
    Cleaned tree root ↔ NoLinkedEntry tree root ∧ NoBackslash tree root := by
  constructor
  · intro h
    exact ⟨noLinkedEntry_of_cleaned h, noBackslash_of_cleaned h⟩
  · rintro ⟨hlink, hback⟩
    exact {
      classified := fun _ hscan => classified_of_scan hscan
      confined := fun _ _ _ hrun => confined_of_noLinkedEntry hlink hrun
      removes := fun _ hscan _ hentry => removes_of_noBackslash hback hscan hentry
      repeated := fun _ _ hrun => removeGenerationDebris_again hrun }

end

/-- A store whose `vectors/` holds the file `a\b`. -/
def backslashTree : FileTree where
  list path :=
    if path = ["store"] then
      ((∅ : Table String Entry).insert vectorsDir .directory).insert "adapter.redb" .file
    else if path = ["store", vectorsDir] then (∅ : Table String Entry).insert "a\\b" .file
    else ∅
  names path name h := by
    split at h
    · rcases Std.ExtTreeMap.mem_insert.mp h with heq | h
      · obtain rfl := Std.LawfulEqOrd.eq_of_compare heq
        decide
      · rcases Std.ExtTreeMap.mem_insert.mp h with heq | h
        · obtain rfl := Std.LawfulEqOrd.eq_of_compare heq
          decide
        · exact absurd h Std.ExtTreeMap.not_mem_empty
    · split at h
      · rcases Std.ExtTreeMap.mem_insert.mp h with heq | h
        · obtain rfl := Std.LawfulEqOrd.eq_of_compare heq
          decide
        · exact absurd h Std.ExtTreeMap.not_mem_empty
      · exact absurd h Std.ExtTreeMap.not_mem_empty

/-- A store whose `vectors/` is a symlink to the store itself. -/
def linkedTree : FileTree where
  list path :=
    if path = ["store"] then
      ((∅ : Table String Entry).insert vectorsDir (.symlink (.directory ["store"]))).insert
        "adapter.redb" .file
    else ∅
  names path name h := by
    split at h
    · rcases Std.ExtTreeMap.mem_insert.mp h with heq | h
      · obtain rfl := Std.LawfulEqOrd.eq_of_compare heq
        decide
      · rcases Std.ExtTreeMap.mem_insert.mp h with heq | h
        · obtain rfl := Std.LawfulEqOrd.eq_of_compare heq
          decide
        · exact absurd h Std.ExtTreeMap.not_mem_empty
    · exact absurd h Std.ExtTreeMap.not_mem_empty

/-- Reported debris is refused for its backslash, and through a linked `vectors/` the store file
goes. -/
theorem debris_not_cleaned :
    (scanGenerationDirectory backslashTree ["store"] =
        some { generationPaths := [], debris := [⟨"vectors/a\\b", none⟩] } ∧
      (removeGenerationDebris backslashTree ["store"] "vectors/a\\b").1 = none ∧
      ¬Cleaned backslashTree ["store"]) ∧
    (removeGenerationDebris linkedTree ["store"] "vectors/adapter.redb").1 = some () ∧
    (linkedTree.list ["store"])["adapter.redb"]? = some .file ∧
    ((removeGenerationDebris linkedTree ["store"] "vectors/adapter.redb").2.list
      ["store"])["adapter.redb"]? = none ∧
    ¬Cleaned linkedTree ["store"] := by
  refine ⟨⟨by decide +kernel, by decide +kernel, fun h => ?_⟩, by decide +kernel,
    by decide +kernel, by decide +kernel, fun h => ?_⟩
  · exact noBackslash_of_cleaned h "a\\b" (by decide +kernel) (by decide +kernel)
      (by decide +kernel) (by decide)
  · exact absurd (noLinkedEntry_of_cleaned h ["store"] "adapter.redb" .file (by decide +kernel)
      (by decide +kernel) (by decide +kernel) (by decide)) Bool.false_ne_true

end OrdinalDB.Debris
