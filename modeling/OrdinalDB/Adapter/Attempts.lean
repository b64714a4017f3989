import OrdinalDB.Adapter.RoundTrip
import OrdinalDB.Store.DebrisNames

/-!
# Saves that stop

`AdapterStore.save` of `adapters/_common.py` up to the point where it stops: behind
any step of `_write_generation`, behind the creation of `adapter.redb`, and behind
the commit. The directory is left as it is, the transaction is atomic.

`Survives` says what a root is asked for behind such a save, `Spared` where it is lost.
-/

namespace OrdinalDB.Adapter

open Json Text Store
open SharedStore (generationDirName)

variable {Text Path : Type}

/-! ## Roots -/

/-- What a save reads and writes of an adapter root. -/
structure Site (Text : Type) where
  storeFile : StoreFile Text
  disk : Disk

namespace Site

def entry (site : Site Text) (name : String) : Option Store.Node := site.disk.node (.vectors name)

/-- The names under `vectors/`. -/
def names (site : Site Text) : List String :=
  site.disk.vectors.elim [] fun entries => entries.keys

/-- `_next_index_path`, by its generation. -/
def nextGenerationId (site : Site Text) : Nat :=
  (site.names.filterMap generationIdFromDirName).foldr max
    (if site.disk.exists? .index then 1 else 0) + 1

def nextName (site : Site Text) : String := generationDirName site.nextGenerationId

/-- `_ensure_directory_without_symlink` of `vectors/`. -/
def ensureVectors (site : Site Text) : Site Text :=
  { site with disk := { site.disk with vectors := some (site.disk.vectors.getD ∅) } }

def put (site : Site Text) (name : String) (node : Store.Node) : Site Text :=
  { site with disk := { site.disk with
      vectors := some ((site.disk.vectors.getD ∅).insert name node) } }

end Site

/-! ## Saves that stop -/

/-- A save: the working copy and its base, and what it takes from its surroundings. -/
structure Attempt (Text Path : Type) where
  store : WorkingCopy PyDict PyStr
  base : Base Path
  target : Path
  adapterName : Option String
  /-- The clock and the random bytes; the directory is that of the root. -/
  env : Env
  /-- What the index is written as. -/
  bundle : Bundle
  /-- The process and the time in the name of the temporary generation. -/
  tempSuffix : String

/-- How far a save gets before it stops. -/
inductive Stage
  | start
  | directory
  /-- A failure removes the temporary generation, a crash leaves what has been written of it. -/
  | temporary (node : Store.Node)
  | renamed
  | created
  | ended
deriving DecidableEq, Repr

namespace Attempt

variable (json : JsonModule Text) (digest : Text → String)

/-- The directory with the new generation. -/
def published (attempt : Attempt Text Path) (site : Site Text) : Site Text :=
  if attempt.store.isEmptyLazy then site else site.put site.nextName (.dir (some attempt.bundle))

/-- The save from the writer lock on. -/
def call (attempt : Attempt Text Path) (site : Site Text) : SaveCall Text Path where
  target := attempt.target
  adapterName := attempt.adapterName
  dir := ⟨site.storeFile, site.disk, none⟩
  env := { attempt.env with disk := (attempt.published site).disk }
  generationId := site.nextGenerationId
  written := true

def run [DecidableEq Path] (attempt : Attempt Text Path) (site : Site Text) :
    SaveResult × Base Path × StoreFile Text :=
  attempt.store.save json digest attempt.base (attempt.call site)

/-- The save gets past its checks in memory and of the base. -/
def begins [DecidableEq Path] (attempt : Attempt Text Path) (site : Site Text) : Bool :=
  attempt.store.validateConsistency &&
    requireFreshBaseGeneration json.codec .none (attempt.call site).dir attempt.base
      attempt.target &&
    (attempt.store.snapshot json digest).isSome

def expected (attempt : Attempt Text Path) (site : Site Text) : Option (Option StoreRevision) :=
  if isMissing site.storeFile then some none else expectedRevision attempt.base.baseCommitToken

/-- The save gets to its transaction. -/
def prepares [DecidableEq Path] (attempt : Attempt Text Path) (site : Site Text) : Bool :=
  attempt.begins json digest site &&
    (attempt.expected site).any fun expected =>
      (attempt.store.payloads json digest attempt.base (attempt.call site)).any fun payloads =>
        (prepareSnapshot json.codec (attempt.call site).env site.storeFile expected payloads
          .created).isSome

/-- The name of the temporary generation. -/
def tempName (attempt : Attempt Text Path) (site : Site Text) : String :=
  String.ofList ('.' :: site.nextName.toList ++ ".tmp-".toList ++ attempt.tempSuffix.toList)

/-- The root that a save leaves which stops behind a stage. -/
def leaves [DecidableEq Path] (attempt : Attempt Text Path) (site : Site Text) : Stage → Site Text
  | .start => site
  | .directory =>
    if attempt.begins json digest site && !attempt.store.isEmptyLazy then site.ensureVectors
    else site
  | .temporary node =>
    if attempt.begins json digest site && !attempt.store.isEmptyLazy then
      site.put (attempt.tempName site) node
    else site
  | .renamed => if attempt.begins json digest site then attempt.published site else site
  | .created =>
    if attempt.prepares json digest site then
      { attempt.published site with storeFile := site.storeFile.created }
    else if attempt.begins json digest site then attempt.published site
    else site
  | .ended =>
    if attempt.begins json digest site then
      { attempt.published site with storeFile := (attempt.run json digest site).2.2 }
    else site

end Attempt

/-! ## What a save is asked for -/

section Specification

variable [DecidableEq Path] (json : JsonModule Text) (digest : Text → String)
  (around : Surroundings Text)

/-- The process that saves has loaded the root, unless there is no store. -/
def Attempt.Loads (attempt : Attempt Text Path) (site : Site Text) : Prop :=
  site.storeFile = .missing ∨
    ∃ loaded, AdapterStore.load json around site.disk site.storeFile none = some loaded ∧
      attempt.base.path = some attempt.target ∧
      attempt.base.baseCommitToken = some (.redb loaded.baseCommitToken)

/-- The root shows the snapshot before the save or the saved one, and a process that loads it can
make the save again. -/
structure Survives (attempt : Attempt Text Path) (site after : Site Text) : Prop where
  shows : after.storeFile = .missing ∧ site.storeFile = .missing ∨
    ∃ store, openVerified json.codec after.disk after.storeFile none = some store ∧
      (openVerified json.codec site.disk site.storeFile none = some store ∨
        attempt.store.payloads json digest attempt.base (attempt.call site) =
          some store.payloads)
  retry : ∃ again : Attempt Text Path, again.store = attempt.store ∧
    again.target = attempt.target ∧ again.Loads json around after ∧
    (again.run json digest after).1 = .returned

/-- The counters of the manifest have room for some more commits. -/
def Site.Room (site : Site Text) (commits : Nat) : Prop :=
  ∀ manifest, site.storeFile.rows.manifest = some manifest →
    manifest.commitSequence + commits < u64Bound ∧
      manifest.tableCounts.generations + commits < u64Bound ∧
      manifest.tableCounts.auditLog + commits < u64Bound

/-- The store of the root is an empty one. -/
def Site.holdsEmpty (site : Site Text) : Bool :=
  site.storeFile.rows.manifest.any fun manifest => manifest.emptyLazy

/-- The save passes the checks on its payloads, and the counters have room. -/
structure Covered (attempt : Attempt Text Path) (site : Site Text) : Prop where
  shaped : WorkingCopy.Shaped attempt.store.index
  consistent : attempt.store.validateConsistency
  inputs : (attempt.store.payloads json digest attempt.base (attempt.call site)).any
    fun payloads => (snapshotInputs json.codec (attempt.call site).env payloads).isSome
  loads : around.loads attempt.bundle
  room : site.Room 2
  generations : site.nextGenerationId + 1 < 10 ^ 12

/-- What is saved keeps to the limits of the reader, which the save does not check. -/
structure Kept (attempt : Attempt Text Path) (site : Site Text) : Prop where
  adapterSize : ∀ texts, attempt.store.payloads json digest attempt.base (attempt.call site) =
    some texts → around.size texts.adapterJson ≤ maxAdapterJsonBytes
  sidecarSizes : ∀ texts, attempt.store.payloads json digest attempt.base (attempt.call site) =
    some texts → ∀ text ∈ [texts.idMapJson, texts.documentsJson, texts.metadataJson],
      around.size text ≤ maxSidecarJsonBytes
  /-- An empty store is saved to a root without a directory of generations. -/
  noVectors : attempt.store.isEmptyLazy → site.disk.vectors = none

/-- The save does not stop where the root is lost. -/
structure Spared (attempt : Attempt Text Path) (site : Site Text) (stage : Stage) : Prop where
  /-- The database of a fresh root is not created without the commit. -/
  committed : site.storeFile = .missing → stage ≠ .created
  /-- On a root with an empty store no directory of generations is left without the commit. -/
  grown : site.holdsEmpty → attempt.store.isEmptyLazy = false →
    requireFreshBaseGeneration json.codec .none (attempt.call site).dir attempt.base
      attempt.target →
      stage = .start ∨ stage = .ended
  /-- What is committed can be read. -/
  kept : stage = .ended →
    requireFreshBaseGeneration json.codec .none (attempt.call site).dir attempt.base
      attempt.target →
      Kept json digest around attempt site

/-- The roots that saves leave which stop anywhere but there. -/
inductive Survivable : Site Text → Prop
  | fresh : Survivable ⟨.missing, ⟨none, none⟩⟩
  | save {site : Site Text} (attempt : Attempt Text Path) (stage : Stage) (h : Survivable site)
      (hcovered : Covered json digest around attempt site)
      (hspared : Spared json digest around attempt site stage) :
      Survivable (attempt.leaves json digest site stage)

end Specification

/-! ## Names -/

section Names

variable {site after : Site Text} {name : String} {node : Store.Node}

theorem le_foldr_max {list : List Nat} {n low : Nat} (h : n ∈ list) :
    n ≤ list.foldr max low := by
  induction list with
  | nil => cases h
  | cons head tail ih =>
    rcases List.mem_cons.mp h with rfl | htail
    · exact le_max_left _ _
    · exact (ih htail).trans (le_max_right _ _)

theorem foldr_max_le {list : List Nat} {n low : Nat} (hlow : low ≤ n) (h : ∀ m ∈ list, m ≤ n) :
    list.foldr max low ≤ n := by
  induction list with
  | nil => exact hlow
  | cons head tail ih =>
    exact max_le (h head List.mem_cons_self) (ih fun m hm => h m (List.mem_cons_of_mem _ hm))

namespace Site

theorem mem_names : name ∈ site.names ↔ (site.entry name).isSome := by
  unfold names entry Disk.node
  cases site.disk.vectors with
  | none => simp
  | some entries =>
    exact Std.ExtTreeMap.mem_keys.trans Std.ExtTreeMap.mem_iff_isSome_getElem?

theorem lt_nextGenerationId {id : Nat} (hname : (site.entry name).isSome)
    (hid : generationIdFromDirName name = some id) : id < site.nextGenerationId :=
  Nat.lt_succ_of_le (le_foldr_max (List.mem_filterMap.mpr ⟨name, mem_names.mpr hname, hid⟩))

theorem nextGenerationId_le {n : Nat} (hpositive : 0 < n)
    (hindex : site.disk.index = none)
    (h : ∀ name id, (site.entry name).isSome → generationIdFromDirName name = some id → id < n) :
    site.nextGenerationId ≤ n := by
  refine Nat.succ_le_of_lt (Nat.lt_of_le_pred hpositive (foldr_max_le ?_ fun id hid => ?_))
  · simp [Disk.exists?, Disk.node, hindex]
  · obtain ⟨name, hname, hid⟩ := List.mem_filterMap.mp hid
    exact Nat.le_pred_of_lt (h name id (mem_names.mp hname) hid)

theorem nextGenerationId_pos : 0 < site.nextGenerationId := Nat.succ_pos _

theorem parse_nextName (h : site.nextGenerationId < 10 ^ 12) :
    parseGenerationDir site.nextName = some site.nextGenerationId :=
  Debris.parseGenerationDir_generationDirName nextGenerationId_pos (Nat.le_pred_of_lt h)

theorem entry_put (other : String) :
    (site.put name node).entry other = if other = name then some node else site.entry other := by
  unfold put entry Disk.node
  simp only [Option.bind_some]
  split
  next h => rw [h, Table.getElem?_insert_self]
  next h =>
    rw [Table.getElem?_insert_of_ne h]
    cases site.disk.vectors with
    | none => simp
    | some entries => rfl

theorem entry_ensureVectors (name : String) : site.ensureVectors.entry name = site.entry name := by
  unfold ensureVectors entry Disk.node
  cases site.disk.vectors with
  | none => simp
  | some entries => rfl

/-- Nothing has the name of the next generation. -/
theorem entry_nextName (h : site.nextGenerationId < 10 ^ 12) : site.entry site.nextName = none := by
  by_contra hsome
  exact Nat.lt_irrefl _ (lt_nextGenerationId (Option.ne_none_iff_isSome.mp hsome)
    (generationIdFromDirName_of_parse (parse_nextName h)))

end Site

/-- Entries have been added, and no generation has been replaced. -/
structure Grows (site after : Site Text) : Prop where
  file : after.storeFile = site.storeFile
  index : after.disk.index = site.disk.index
  entries : ∀ name node, (generationIdFromDirName name).isSome → site.entry name = some node →
    after.entry name = some node

theorem Grows.refl (site : Site Text) : Grows site site := ⟨rfl, rfl, fun _ _ _ h => h⟩

theorem grows_ensureVectors (site : Site Text) : Grows site site.ensureVectors where
  file := rfl
  index := rfl
  entries name _ _ h := (Site.entry_ensureVectors name).trans h

theorem grows_put (h : generationIdFromDirName name = none ∨ site.entry name = none) :
    Grows site (site.put name node) where
  file := rfl
  index := rfl
  entries other old hgeneration hold := by
    rw [Site.entry_put, if_neg, hold]
    rintro rfl
    rcases h with h | h
    · rw [h] at hgeneration
      cases hgeneration
    · cases h.symm.trans hold

/-- The bundles of a root stay. -/
theorem Grows.bundle (h : Grows site after) {path : String} {bundle : Bundle}
    (hbundle : site.disk.bundle path = some bundle) : after.disk.bundle path = some bundle := by
  obtain ⟨location, hlocation, hnode⟩ := Option.bind_eq_some_iff.mp hbundle
  obtain ⟨node, hnode, hbundle⟩ := Option.bind_eq_some_iff.mp hnode
  refine Option.bind_eq_some_iff.mpr ⟨location, hlocation, Option.bind_eq_some_iff.mpr
    ⟨node, ?_, hbundle⟩⟩
  cases location with
  | index => exact h.index.trans hnode
  | vectors name =>
    have hname : (parseGenerationDir name).isSome := by
      unfold locate at hlocation
      grind
    obtain ⟨id, hid⟩ := Option.isSome_iff_exists.mp hname
    exact h.entries name node
      (Option.isSome_of_eq_some (generationIdFromDirName_of_parse hid)) hnode

theorem Grows.nextGenerationId_le (h : Grows site after) (hindex : site.disk.index = none) :
    site.nextGenerationId ≤ after.nextGenerationId :=
  Site.nextGenerationId_le Site.nextGenerationId_pos hindex fun name id hname hid => by
    obtain ⟨node, hnode⟩ := Option.isSome_iff_exists.mp hname
    exact Site.lt_nextGenerationId (Option.isSome_of_eq_some
      (h.entries name node (Option.isSome_of_eq_some hid) hnode)) hid

theorem dirName_tempName (attempt : Attempt Text Path) (site : Site Text) :
    generationIdFromDirName (attempt.tempName site) = none := by
  unfold generationIdFromDirName Attempt.tempName
  simp

theorem grows_published (attempt : Attempt Text Path) (h : site.nextGenerationId < 10 ^ 12) :
    Grows site (attempt.published site) := by
  unfold Attempt.published
  split
  next => exact .refl site
  next => exact grows_put (.inr (Site.entry_nextName h))

/-- The new generation is the last one. -/
theorem nextGenerationId_published (attempt : Attempt Text Path)
    (h : site.nextGenerationId < 10 ^ 12) (hindex : site.disk.index = none) :
    (attempt.published site).nextGenerationId ≤ site.nextGenerationId + 1 := by
  unfold Attempt.published
  split
  next => exact Nat.le_succ _
  next =>
    refine Site.nextGenerationId_le (Nat.succ_pos _) hindex fun name id hname hid => ?_
    rw [Site.entry_put] at hname
    split at hname
    next heq =>
      rw [heq, generationIdFromDirName_of_parse (Site.parse_nextName h)] at hid
      exact (Option.some.inj hid) ▸ Nat.lt_succ_self _
    next => exact (Site.lt_nextGenerationId hname hid).trans (Nat.lt_succ_self _)

/-- The path of the next generation names its directory. -/
theorem locate_nextIndexPath (h : site.nextGenerationId < 10 ^ 12) :
    locate (generationIndexPath site.nextGenerationId) = some (.vectors site.nextName) ∧
      generationIdFromIndexPath (generationIndexPath site.nextGenerationId) =
        some site.nextGenerationId := by
  obtain ⟨digits, htext, hwidth, hascii, hzero, hvalue⟩ :=
    parseGenerationDir_eq_some.mp (Site.parse_nextName h)
  have hdigits : digits = (decimal site.nextGenerationId).leftpad 12 '0' := by
    have hsame := htext.symm.trans (Debris.generationDirName_toList site.nextGenerationId)
    exact List.append_cancel_right (List.cons.inj hsame).2
  have hname : String.ofList ('g' :: (digits ++ ".odb".toList)) = site.nextName := by
    rw [← htext, String.ofList_toList]
  unfold generationIndexPath
  rw [← hdigits]
  refine ⟨(locate_generationPath hwidth hascii hzero).trans (by rw [hname]), ?_⟩
  rw [generationId_generationPath hwidth hascii hzero, hvalue]

end Names

end OrdinalDB.Adapter
