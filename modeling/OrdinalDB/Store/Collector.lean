import OrdinalDB.Lib.Durable
import OrdinalDB.Store.Mutations

/-!
# The collection of generations

`gc_adapter_generations` of `ordinaldb-cli/src/main.rs`, with what it uses of the
directory functions of `ordinaldb-adapter-store/src/lib.rs`, as a program over an
adapter root that a crash may cut. No other writer runs, so the writer lock is
there to take. Reading and deleting entries succeeds.
-/

namespace OrdinalDB.Store

open Durable Text

variable {Text : Type}

/-! ## Roots -/

/-- The names that a directory can list. -/
def EntryName (name : String) : Prop :=
  name.toList ∉ [[], ['.'], ['.', '.']] ∧ '/' ∉ name.toList

instance (name : String) : Decidable (EntryName name) := inferInstanceAs (Decidable (_ ∧ _))

def Disk.Named (disk : Disk) : Prop :=
  disk.vectors.all fun entries => entries.keys.all fun name => decide (EntryName name)

instance (disk : Disk) : Decidable disk.Named := inferInstanceAs (Decidable (_ = true))

/-- What lies at the place of a generation's pin. -/
inductive PinFile
  | regular
  | irregular
deriving DecidableEq, Repr

/-- An adapter root; `pins` lists the pins by the entry of `vectors/` that they lie in. -/
structure Root (Text : Type) where
  disk : Disk
  pins : Table String PinFile
  storeFile : StoreFile Text
  named : disk.Named

def Root.entry (root : Root Text) (name : String) : Option Node :=
  root.disk.node (.vectors name)

def entryPath (name : String) : String := vectorsDir ++ "/" ++ name

/-- The entry that a path of two components under `vectors/` names. -/
def entryOfPath (path : String) : Option String :=
  match components path with
  | [.normal first, .normal second] => if first = vectorsDir then some second else none
  | _ => none

def Node.isDir : Node → Bool
  | .dir _ => true
  | _ => false

/-- The disk without an entry. -/
def Disk.remove (disk : Disk) (name : String) : Disk :=
  { disk with vectors := disk.vectors.map fun entries => entries.erase name }

/-- The disk while `remove_dir_all` is about to remove an emptied directory. -/
def Disk.gut (disk : Disk) (name : String) : Disk :=
  { disk with vectors := disk.vectors.map fun entries => entries.alter name fun
      | some (.dir _) => some (.dir none)
      | other => other }

theorem Disk.named_iff {disk : Disk} :
    disk.Named ↔ ∀ name, (disk.node (.vectors name)).isSome → EntryName name := by
  unfold Disk.Named Disk.node
  cases disk.vectors with
  | none => simp
  | some entries =>
    simp only [Option.all_some, List.all_eq_true, decide_eq_true_eq, Std.ExtTreeMap.mem_keys,
      Option.bind_some, Std.ExtTreeMap.mem_iff_isSome_getElem?]

theorem Disk.node_remove (disk : Disk) (name other : String) :
    (disk.remove name).node (.vectors other) =
      if other = name then none else disk.node (.vectors other) := by
  unfold Disk.remove Disk.node
  cases disk.vectors with
  | none => simp
  | some entries =>
    simp only [Option.map_some, Option.bind_some, Std.ExtTreeMap.getElem?_erase,
      Std.compare_eq_iff_eq, @eq_comm _ name]

theorem Disk.node_gut (disk : Disk) (name other : String) :
    (disk.gut name).node (.vectors other) =
      if other = name then (disk.node (.vectors other)).map fun
        | .dir _ => .dir none
        | node => node
      else disk.node (.vectors other) := by
  unfold Disk.gut Disk.node
  cases disk.vectors with
  | none => simp
  | some entries =>
    simp only [Option.map_some, Option.bind_some, Std.ExtTreeMap.getElem?_alter,
      Std.compare_eq_iff_eq, @eq_comm _ name]
    split
    next h =>
      subst h
      rcases entries[other]? with _ | _ | _ | _ <;> rfl
    next => rfl

def Root.remove (root : Root Text) (name : String) : Root Text :=
  { root with
    disk := root.disk.remove name
    named := Disk.named_iff.mpr fun other hother => by
      rw [Disk.node_remove] at hother
      split at hother
      next => cases hother
      next => exact Disk.named_iff.mp root.named other hother }

def Root.gut (root : Root Text) (name : String) : Root Text :=
  { root with
    disk := root.disk.gut name
    named := Disk.named_iff.mpr fun other hother => by
      rw [Disk.node_gut] at hother
      refine Disk.named_iff.mp root.named other ?_
      split at hother
      next => simpa using hother
      next => exact hother }

/-! ## Scanning -/

/-- The sorted paths of the committed generations and of everything else. -/
structure GenerationDirectoryScan where
  generationPaths : List String
  debris : List String

/-- A table lists its entries in ascending order. -/
def scanGenerationDirectory (disk : Disk) : Option GenerationDirectoryScan :=
  match disk.vectors with
  | none => some { generationPaths := [], debris := [] }
  | some entries =>
    if entries.toList.all fun (name, node) =>
        !node.isSymlink && ((parseGenerationDir name).isNone || node.isDir) then
      let (generations, debris) := entries.keys.partition fun name => (parseGenerationDir name).isSome
      some { generationPaths := generations.map entryPath, debris := debris.map entryPath }
    else none

structure GenerationDirectorySummary where
  retainedGenerationPaths : List String
  partialGenerationPaths : List String

def generationDirectorySummary (disk : Disk) (activeGenerationPath : Option String) :
    Option GenerationDirectorySummary := do
  let scan ← scanGenerationDirectory disk
  pure {
    retainedGenerationPaths :=
      scan.generationPaths.filter fun path => some path ≠ activeGenerationPath
    partialGenerationPaths := scan.debris }

/-- A pin is looked for in a directory only. -/
def generationIsPinned (root : Root Text) (path : String) : Option Bool :=
  match (entryOfPath path).bind root.entry with
  | some (.dir _) =>
    match (entryOfPath path).bind (root.pins[·]?) with
    | none => some false
    | some .regular => some true
    | some .irregular => none
  | _ => some false

/-! ## Sorting generations out -/

structure GenerationClasses where
  pinned : List String
  retained : List String
  reclaimable : List String

/-- The loop over the committed generations, newest first. -/
def classifyRetained (root : Root Text) : Nat → List String → Option GenerationClasses
  | _, [] => some { pinned := [], retained := [], reclaimable := [] }
  | retainedBudget, path :: rest => do
    let pinned ← generationIsPinned root path
    if pinned then
      let classes ← classifyRetained root retainedBudget rest
      pure { classes with pinned := path :: classes.pinned, retained := path :: classes.retained }
    else if 0 < retainedBudget then
      let classes ← classifyRetained root (retainedBudget - 1) rest
      pure { classes with retained := path :: classes.retained }
    else
      let classes ← classifyRetained root retainedBudget rest
      pure { classes with reclaimable := path :: classes.reclaimable }

/-- The loop over everything else. -/
def classifyPartial (root : Root Text) : List String → Option GenerationClasses
  | [] => some { pinned := [], retained := [], reclaimable := [] }
  | path :: rest => do
    let pinned ← generationIsPinned root path
    let classes ← classifyPartial root rest
    if pinned then pure { classes with pinned := path :: classes.pinned }
    else pure { classes with reclaimable := path :: classes.reclaimable }

def sortPaths (paths : List String) : List String := paths.mergeSort fun a b => decide (a ≤ b)

def classifyGenerations (root : Root Text) (retain : Nat) (summary : GenerationDirectorySummary) :
    Option GenerationClasses := do
  let committed ← classifyRetained root retain summary.retainedGenerationPaths.reverse
  let others ← classifyPartial root summary.partialGenerationPaths
  pure {
    pinned := sortPaths (committed.pinned ++ others.pinned)
    retained := sortPaths committed.retained
    reclaimable := sortPaths (committed.reclaimable ++ others.reclaimable) }

/-! ## Gc events -/

def parsePartialGenerationDir (name : String) : Option Nat :=
  match name.toList with
  | '.' :: rest => do
    let (generation, suffix) ← splitOnce ".tmp-".toList rest
    guard (suffix ≠ [])
    parseGenerationDir (String.ofList generation)
  | _ => none

/-- The outer option is the error. -/
def generationIdFromGcPath (path : String) : Option (Option Nat) := do
  guard (validateRelativePath path)
  let name ← entryOfPath path
  pure ((parseGenerationDir name).or (parsePartialGenerationDir name))

def gcUpdateForPath (state reason path : String) : Option GenerationGcUpdate := do
  let generationId ← generationIdFromGcPath path
  pure { generationId, path, state, reason }

/-- One row that is not a gc event fails the whole call. -/
def generationGcEvents (storeFile : StoreFile Text) : Option (List GcRow) :=
  match storeFile with
  | .tables tables => tables.gcQueue.toList.mapM fun (_, row) => row.filter fun event =>
      validateGcUpdate ⟨event.generationId, event.path, event.state, event.reason⟩
  | _ => none

def latestGcStatesByPath (storeFile : StoreFile Text) : Option (Table String String) := do
  let events ← generationGcEvents storeFile
  pure ((∅ : Table String String).insertMany (events.map fun event => (event.path, event.state)))

/-- The surroundings of a call on a root. -/
def Env.on (env : Env) (root : Root Text) : Env := { env with disk := root.disk }

def recordGenerationGcWithExistingLock (codec : JsonCodec Text) (env : Env)
    (expected : Option StoreRevision) (updates : List GenerationGcUpdate) :
    Prog (Root Text) (VerifiedAdapterStore Text) :=
  .step fun root =>
    let outcome := recordGenerationGcInner codec (env.on root) root.storeFile expected updates
    (outcome.1, { root with storeFile := outcome.2 })

/-- Record one state for all the paths. -/
def recordPaths (codec : JsonCodec Text) (env : Env) (store : VerifiedAdapterStore Text)
    (state reason : String) (paths : List String) :
    Prog (Root Text) (VerifiedAdapterStore Text) := do
  let updates ← .read fun _ => paths.mapM (gcUpdateForPath state reason)
  recordGenerationGcWithExistingLock codec env (some (.fromManifest store.manifest)) updates

/-! ## Deleting -/

/-- Remove an entry; a directory is emptied first. -/
def removeEntry (name : String) : Prog (Root Text) Unit := fun root =>
  ⟨[root, root.gut name], some (), root.remove name⟩

/-- `remove_generation_debris` takes a missing entry for deleted, the rest of the function does
not. -/
def deleteGenerationDir (path : String) : Prog (Root Text) Unit := do
  let _ ← .read fun _ => generationIdFromGcPath path
  let name ← .read fun _ => entryOfPath path
  let node ← .read fun root => some (root.entry name)
  match node with
  | none => .read fun _ => if (parseGenerationDir name).isNone then some () else none
  | some (.symlink _) => .read fun _ => none
  | some .file =>
    if (parseGenerationDir name).isNone then removeEntry name else .read fun _ => none
  | some (.dir _) => removeEntry name

/-! ## Recovery -/

/-- Whether the path of an interrupted deletion is gone now. No gc run records a path that
names no entry of `vectors/`. -/
def recoverPath (path : String) : Prog (Root Text) Bool := do
  let name ← .read fun _ => entryOfPath path
  let node ← .read fun root => some (root.entry name)
  match node with
  | none => pure true
  | some (.dir _) => do
    let pinned ← .read fun root => generationIsPinned root path
    if pinned then pure false
    else do
      deleteGenerationDir path
      pure true
  | some _ => .read fun _ => none

def isInterrupted (activeGenerationPath : Option String) (row : String × String) : Bool :=
  row.2 = generationStateDeleting && some row.1 ≠ activeGenerationPath

/-- The paths that are gone after the loop, in its order. -/
def recoverPaths : List String → Prog (Root Text) (List String)
  | [] => pure []
  | path :: rest => do
    let gone ← recoverPath path
    let paths ← recoverPaths rest
    pure (if gone then path :: paths else paths)

def recoverInterruptedAdapterGc (codec : JsonCodec Text) (env : Env)
    (activeGenerationPath : Option String) (store : VerifiedAdapterStore Text) :
    Prog (Root Text) (VerifiedAdapterStore Text × List String) := do
  let states ← .read fun root => latestGcStatesByPath root.storeFile
  let interrupted := (states.toList.filter (isInterrupted activeGenerationPath)).map Prod.fst
  let recoveredDeletedPaths ← recoverPaths interrupted
  if recoveredDeletedPaths = [] then pure (store, recoveredDeletedPaths)
  else do
    let recovered ← recordPaths codec env store generationStateDeleted "adapter_gc_recovery"
      recoveredDeletedPaths
    pure (recovered, recoveredDeletedPaths)

/-! ## Collecting -/

structure AdapterGcReport where
  dryRun : Bool
  retain : Nat
  activeGenerationPath : Option String
  retainedGenerationPaths : List String
  reclaimableGenerationPaths : List String
  deletedGenerationPaths : List String
  pinnedGenerationPaths : List String
  redbCommitSequence : Option Nat
deriving DecidableEq, Repr

def VerifiedAdapterStore.activeGenerationPath (store : VerifiedAdapterStore Text) : Option String :=
  (some store.manifest.activeGenerationPath).filter (· ≠ "")

/-- The part of a run behind the recovery, when there is something to reclaim. -/
def reclaimGenerations (codec : JsonCodec Text) (envs : Nat → Env)
    (currentStore : VerifiedAdapterStore Text) (reclaimable recovered : List String) :
    Prog (Root Text) (VerifiedAdapterStore Text × List String) := do
  let queued ← recordPaths codec (envs 1) currentStore generationStateReclaimable "adapter_gc"
    reclaimable
  let deleting ← recordPaths codec (envs 2) queued generationStateDeleting "adapter_gc" reclaimable
  reclaimable.forM deleteGenerationDir
  let deleted := recovered ++ reclaimable
  let finalStore ← recordPaths codec (envs 3) deleting generationStateDeleted "adapter_gc" deleted
  pure (finalStore, deleted)

/-- `envs` is what each of the records of a run finds. -/
def gcAdapterGenerations (codec : JsonCodec Text) (envs : Nat → Env) (retain : Nat)
    (dryRun : Bool) : Prog (Root Text) AdapterGcReport := do
  let store ← .read fun root => openVerified codec root.disk root.storeFile none
  let activeGenerationPath := store.activeGenerationPath
  let summary ← .read fun root => generationDirectorySummary root.disk activeGenerationPath
  let classes ← .read fun root => classifyGenerations root retain summary
  let report (deleted : List String) (store : VerifiedAdapterStore Text) : AdapterGcReport := {
    dryRun
    retain
    activeGenerationPath
    retainedGenerationPaths := classes.retained
    reclaimableGenerationPaths := classes.reclaimable
    deletedGenerationPaths := deleted
    pinnedGenerationPaths := classes.pinned
    redbCommitSequence := some store.manifest.commitSequence }
  if dryRun then pure (report [] store)
  else do
    let (currentStore, recovered) ←
      recoverInterruptedAdapterGc codec (envs 0) activeGenerationPath store
    if classes.reclaimable = [] then pure (report recovered currentStore)
    else do
      let (finalStore, deleted) ←
        reclaimGenerations codec envs currentStore classes.reclaimable recovered
      pure (report deleted finalStore)

end OrdinalDB.Store
