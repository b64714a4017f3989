import OrdinalDB.Adapter.Load
import OrdinalDB.Store.Snapshots

/-!
# Saving an adapter store in Python

`AdapterStore.save` of `adapters/_common.py` from the writer lock on, and
`_recover_contended_commit`, over `write_legacy_snapshot_inner`. A reader that
has `adapter.redb` open makes the opens of the save fail; `Contention` says which.

`save_truthful`: whatever the readers do, a save that returns has published its
snapshot, one that says that it has not published has changed nothing, and one
that raises leaves the base in memory as it was.
-/

namespace OrdinalDB.Adapter

open Json Store

variable {Text Path : Type}

/-! ## Contention -/

/-- The opens of `adapter.redb` that meet a reader. -/
structure Contention where
  fresh : Bool           -- `_require_fresh_base_generation`
  previous : Bool        -- `current_verified_store`
  write : Bool           -- `Database::open` or `Database::create`
  /-- A create that fails on the lock leaves its empty file. -/
  leavesFile : Bool
  reverify : Bool        -- `open_verified` after the commit
  retries : Fin 3 → Bool -- `_read_adapter_state_manifest_with_retry`

def Contention.none : Contention := ⟨false, false, false, false, false, fun _ => false⟩

/-- Why the write call fails: on the lock of the database, or for another reason. -/
inductive CommitFailure
  | contended
  | other
deriving DecidableEq, Repr

/-- What `write_legacy_snapshot_inner` reads before it opens the database. -/
def snapshotInputs (codec : JsonCodec Text) (env : Env) (payloads : LegacyPayloads Text) :
    Option (ParsedPayloads × GenerationCheckpoint) := do
  let parsed ← ParsedPayloads.parse codec payloads
  let generation ← activeGenerationCheckpoint env.disk parsed none
  guard (parsed.validateAgainstGeneration generation)
  pure (parsed, generation)

def isMissing : StoreFile Text → Bool
  | .missing => true
  | _ => false

/-- `write_legacy_snapshot_inner` under contention: its answer and the file that it leaves. -/
def writeContended (codec : JsonCodec Text) (env : Env) (busy : Contention)
    (storeFile : StoreFile Text) (expected : Option StoreRevision)
    (payloads : LegacyPayloads Text) : Except CommitFailure Manifest × StoreFile Text :=
  match snapshotInputs codec env payloads with
  | none => (.error .other, storeFile)
  | some _ =>
    if busy.previous && !isMissing storeFile then (.error .contended, storeFile)
    else
      match prepareSnapshot codec env storeFile expected payloads .created with
      | none => (.error .other, storeFile)
      | some plan =>
        if busy.write then
          (.error .contended, if busy.leavesFile then storeFile.created else storeFile)
        else
          match writeSnapshotTransaction codec env storeFile.rows payloads plan with
          | none => (.error .other, storeFile.created)
          | some tables =>
            if busy.reverify then (.error .contended, .tables tables)
            else
              match openVerified codec env.disk (.tables tables) none with
              | none => (.error .other, .tables tables)
              | some store => (.ok store.manifest, .tables tables)

/-! ## The saved snapshot -/

/-- A token of a store without a database names its index and counts its ids. -/
inductive CommitToken
  | legacy (indexPath : String) (activeIds : Nat)
  | redb (revision : StoreRevision)
deriving DecidableEq, Repr

/-- `_commit_token_json`, as Rust reads it: the fields that a legacy token lacks are required. -/
def expectedRevision : Option CommitToken → Option (Option StoreRevision)
  | none => some none
  | some (.redb revision) => some (some revision)
  | some (.legacy _ _) => none

/-- The state in memory that is saved, down to the texts of its sidecars. -/
structure Snapshot (Text : Type) where
  bits : UInt64
  dim : Option UInt64
  emptyLazy : Bool
  sidecarDigests : Table String String
  idMapJson : Text
  documentsJson : Text
  metadataJson : Text

def adapterObject (snapshot : Snapshot Text) (adapterName indexPath : String) : Object :=
  (∅ : Object).insertMany
    [("schema_version", .string "ordinaldb.adapter.v1"), ("adapter", .string adapterName),
      ("bits", .number (.posInt snapshot.bits)),
      ("dim", snapshot.dim.elim .null fun dim => .number (.posInt dim)),
      ("empty_lazy", .bool snapshot.emptyLazy), ("index_path", .string indexPath),
      ("sidecars", .ofTable (snapshot.sidecarDigests.map fun _ digest => .string digest))]

/-- The documents that `_write_adapter_state` hands over. -/
def Snapshot.payloads (codec : JsonCodec Text) (snapshot : Snapshot Text)
    (adapterName indexPath : String) : LegacyPayloads Text where
  adapterJson := codec.write (.ofTable (adapterObject snapshot adapterName indexPath))
  idMapJson := snapshot.idMapJson
  documentsJson := snapshot.documentsJson
  metadataJson := snapshot.metadataJson

/-! ## What a snapshot says -/

theorem canonical_adapterObject (snapshot : Snapshot Text) (adapterName indexPath : String) :
    (Value.ofTable (adapterObject snapshot adapterName indexPath)).Canonical := by
  refine Value.canonical_ofTable fun key value hvalue => ?_
  have hmem := (Table.ofList_eq_some (by simp)).mp hvalue
  simp only [List.mem_cons, Prod.mk.injEq, List.not_mem_nil, or_false] at hmem
  rcases hmem with ⟨-, rfl⟩ | ⟨-, rfl⟩ | ⟨-, rfl⟩ | ⟨-, rfl⟩ | ⟨-, rfl⟩ | ⟨-, rfl⟩ | ⟨-, rfl⟩
  case inr.inr.inr.inl => cases snapshot.dim <;> rfl
  case inr.inr.inr.inr.inr.inr =>
    refine Value.canonical_ofTable fun name digest hdigest => ?_
    rw [Std.ExtTreeMap.getElem?_map] at hdigest
    obtain ⟨text, -, rfl⟩ := Option.map_eq_some_iff.mp hdigest
    rfl
  all_goals rfl

section Fields

variable (snapshot : Snapshot Text) (adapterName indexPath : String)

theorem adapterObject_bits : (adapterObject snapshot adapterName indexPath)["bits"]? =
    some (.number (.posInt snapshot.bits)) :=
  Table.insertMany_of_nodup (by simp) (by simp)

theorem adapterObject_dim : (adapterObject snapshot adapterName indexPath)["dim"]? =
    some (snapshot.dim.elim .null fun dim => .number (.posInt dim)) :=
  Table.insertMany_of_nodup (by simp) (by simp)

theorem adapterObject_emptyLazy : (adapterObject snapshot adapterName indexPath)["empty_lazy"]? =
    some (.bool snapshot.emptyLazy) :=
  Table.insertMany_of_nodup (by simp) (by simp)

theorem adapterObject_indexPath : (adapterObject snapshot adapterName indexPath)["index_path"]? =
    some (.string indexPath) :=
  Table.insertMany_of_nodup (by simp) (by simp)

end Fields

/-- An object that is written is the one that is read. -/
theorem object_of_write {codec : JsonCodec Text} {members object : Object}
    (hcanonical : (Value.ofTable members).Canonical)
    (h : (parseJsonObject codec (codec.write (.ofTable members))).bind Value.asObject =
      some object) : object = members := by
  rw [parseJsonObject_write codec hcanonical] at h
  split at h
  next => exact (Option.some.inj ((Value.asObject_ofTable members).symm.trans h)).symm
  next => cases h

/-- The object that a snapshot hands over is read back. -/
theorem parse_snapshot {codec : JsonCodec Text} {snapshot : Snapshot Text}
    {adapterName indexPath : String} {parsed : ParsedPayloads}
    (h : ParsedPayloads.parse codec (snapshot.payloads codec adapterName indexPath) = some parsed) :
    parsed.emptyLazy = snapshot.emptyLazy ∧ parsed.indexPath = indexPath := by
  obtain ⟨adapter, _, _, _, hadapter, -, -, -, hobjects⟩ := ParsedPayloads.parse_eq_some.mp h
  obtain rfl := object_of_write (canonical_adapterObject snapshot adapterName indexPath) hadapter
  obtain ⟨-, -, -, -, -, hlazy, hpath, -⟩ := ParsedPayloads.parseObjects_adapter hobjects
  rw [requiredBool, adapterObject_emptyLazy] at hlazy
  rw [requiredString, adapterObject_indexPath] at hpath
  exact ⟨(Option.some.inj hlazy).symm, (Option.some.inj hpath).symm⟩

/-! ## What the write call leaves -/

section Written

variable {codec : JsonCodec Text} {env : Env} {busy : Contention} {storeFile : StoreFile Text}
  {expected : Option StoreRevision} {payloads : LegacyPayloads Text}

/-- The transaction of the write call has committed. -/
structure Published (codec : JsonCodec Text) (env : Env) (storeFile : StoreFile Text)
    (payloads : LegacyPayloads Text) (manifest : Manifest) (after : StoreFile Text) : Prop where
  after : ∃ tables, after = .tables tables ∧ tables.manifest = some manifest ∧
    loadPayloads tables.jsonPayloads = some payloads
  opened : storeFile = .missing ∨ storeFile = .tables storeFile.rows
  /-- The revision is not one that the store has had. -/
  revision : (storeFile = .missing → manifest.storeUuid = randomStoreUuid env.random) ∧
    ∀ before, storeFile.rows.manifest = some before →
      manifest.commitSequence = before.commitSequence + 1
  path : ∃ parsed, ParsedPayloads.parse codec payloads = some parsed ∧
    (parsed.emptyLazy = false → manifest.activeGenerationPath = parsed.indexPath)

theorem published_of_prepared {plan : SnapshotPlan}
    {previousStore : Option (VerifiedAdapterStore Text)} {tableCounts : TableCounts}
    {tables : Tables Text}
    (h : Prepared codec env storeFile expected payloads .created plan previousStore tableCounts)
    (hwritten : SnapshotWritten codec env storeFile.rows payloads plan tables) :
    Published codec env storeFile payloads plan.manifest (.tables tables) := by
  have hsequence := h.commitSequence
  have hmanifest := h.manifest
  simp only [adapterStoreManifest, Option.bind_eq_bind, Option.bind_eq_some_iff, Option.pure_def,
    Option.some.injEq] at hmanifest
  obtain ⟨_, -, hmanifest⟩ := hmanifest
  refine ⟨⟨tables, rfl, hwritten.manifest, hwritten.payloads⟩, ?_, ⟨?_, ?_⟩,
    ⟨plan.parsed, h.parses, fun hlazy => ?_⟩⟩
  · rcases currentVerifiedStore_cases h.current with ⟨hfile, -⟩ | ⟨_, _, _, -, hfile, -⟩
    · exact .inl hfile
    · exact .inr hfile
  · rintro rfl
    obtain rfl := Option.some.inj h.current
    rw [← hmanifest]
    rfl
  · intro before hbefore
    rcases currentVerifiedStore_cases h.current with ⟨rfl, -⟩ | ⟨verified, _, _, rfl, -, hopens⟩
    · simp [StoreFile.rows, Tables.manifest, Tables.empty] at hbefore
    · obtain rfl := Option.some.inj (hopens.manifest.symm.trans hbefore)
      exact checkedAdd_eq_some hsequence
  · obtain ⟨-, -, hgeneration, -⟩ := h.manifest_verified
    simp only [verifyManifestGeneration, Bool.and_eq_true, decide_eq_true_eq] at hgeneration
    obtain ⟨_, -, -, hpath, -⟩ := checkpoint_bundle h.checkpoint hlazy
    exact hgeneration.1.1.2.trans hpath

/-- A store that opens after the commit is the one that has been written. -/
theorem Published.opens {manifest : Manifest} {after : StoreFile Text} {disk : Disk}
    {store : VerifiedAdapterStore Text}
    (h : Published codec env storeFile payloads manifest after)
    (hopen : openVerified codec disk after none = some store) :
    store.manifest = manifest ∧ store.payloads = payloads := by
  obtain ⟨tables, rfl, hmanifest, hpayloads⟩ := h.after
  obtain ⟨_, _, hopens⟩ := openTables_eq_some.mp hopen
  exact ⟨Option.some.inj (hopens.manifest.symm.trans hmanifest),
    Option.some.inj (hopens.payloads.symm.trans hpayloads)⟩

/-- The write call has failed before its transaction. -/
def Untouched (storeFile after : StoreFile Text) : Prop :=
  after = storeFile ∨ storeFile = .missing ∧ after = .blank

theorem untouched_created : Untouched storeFile storeFile.created := by
  cases storeFile
  case missing => exact .inr ⟨rfl, rfl⟩
  all_goals exact .inl rfl

/-- What the write call has done, in each of its outcomes. -/
theorem writeContended_cases (codec : JsonCodec Text) (env : Env) (busy : Contention)
    (storeFile : StoreFile Text) (expected : Option StoreRevision)
    (payloads : LegacyPayloads Text) :
    let outcome := writeContended codec env busy storeFile expected payloads
    (∃ manifest, Published codec env storeFile payloads manifest outcome.2 ∧
      ∀ answer, outcome.1 = .ok answer → answer = manifest ∧
        (openVerified codec env.disk outcome.2 none).isSome) ∨
      Untouched storeFile outcome.2 ∧ ∃ failure, outcome.1 = .error failure := by
  unfold writeContended
  split
  next => exact .inr ⟨.inl rfl, _, rfl⟩
  next =>
    split
    next => exact .inr ⟨.inl rfl, _, rfl⟩
    next =>
      split
      next => exact .inr ⟨.inl rfl, _, rfl⟩
      next plan hplan =>
        obtain ⟨_, _, hprepared⟩ := prepareSnapshot_eq_some.mp hplan
        obtain ⟨_, hnext, -⟩ := hprepared.generations
        obtain ⟨tables, htables, hwritten⟩ :=
          writeSnapshotTransaction_eq_some hprepared.parses hnext
        have hpublished := published_of_prepared hprepared hwritten
        split
        next =>
          -- a create that fails on the lock may leave its file
          refine .inr ⟨?_, _, rfl⟩
          split
          next => exact untouched_created
          next => exact .inl rfl
        next =>
          simp only [htables]
          refine .inl ⟨plan.manifest, ?_⟩
          split
          next => exact ⟨hpublished, fun _ hanswer => by cases hanswer⟩
          next =>
            split
            next => exact ⟨hpublished, fun _ hanswer => by cases hanswer⟩
            next store hstore =>
              refine ⟨hpublished, ?_⟩
              rintro _ ⟨rfl⟩
              exact ⟨(hpublished.opens hstore).1, Option.isSome_of_eq_some hstore⟩

end Written

/-! ## Saving -/

/-- What an `AdapterStore` remembers of the store it was loaded from or saved to last. -/
structure Base (Path : Type) where
  path : Option Path
  baseGenerationPath : Option String
  baseCommitToken : Option CommitToken
  loadedLayout : Option String
  unsavedWritesWarned : Bool
  adapterName : String

/-- The target directory before the save. -/
structure Directory (Text : Type) where
  storeFile : StoreFile Text
  disk : Disk
  /-- The token of a legacy `adapter.json`; the inner option is a file that cannot be read. -/
  legacy : Option (Option CommitToken)

inductive SaveResult
  | returned
  | notPublished
  | outcomeUnknown
  | failed
deriving DecidableEq, Repr

/-- `_current_adapter_commit`; the outer option is an error. -/
def currentAdapterCommit (codec : JsonCodec Text) (busy : Contention) (dir : Directory Text) :
    Option (Option CommitToken) :=
  if isMissing dir.storeFile then
    match dir.legacy with
    | none => some none
    | some token => token.map some
  else if busy.fresh then none
  else do
    let store ← openVerified codec dir.disk dir.storeFile none
    let revision ← commitTokenFromManifest store.manifest
    pure (some (.redb revision))

/-- `_require_fresh_base_generation`. -/
def requireFreshBaseGeneration [DecidableEq Path] (codec : JsonCodec Text) (busy : Contention)
    (dir : Directory Text) (base : Base Path) (target : Path) : Bool :=
  match currentAdapterCommit codec busy dir with
  | none => false
  | some none => true
  | some (some current) => base.path = some target && base.baseCommitToken = some current

/-- The loop of `_read_adapter_state_manifest_with_retry`. -/
def readManifestWithRetry (codec : JsonCodec Text) (disk : Disk) (storeFile : StoreFile Text) :
    List Bool → Option Manifest
  | [] => none
  | true :: rest => readManifestWithRetry codec disk storeFile rest
  | false :: _ => (openVerified codec disk storeFile none).map (·.manifest)

section Save

variable (codec : JsonCodec Text) (env : Env) (busy : Contention) (snapshot : Snapshot Text)
  (base : Base Path) (target : Path) (adapterName : Option String) (indexPath : String)

/-- The end of a save whose commit is known to be durable. -/
def publish (manifest : Manifest) (storeFile : StoreFile Text) :
    SaveResult × Base Path × StoreFile Text :=
  match commitTokenFromManifest manifest with
  | none => (.failed, base, storeFile)
  | some revision =>
    (.returned, {
      path := some target
      baseGenerationPath := some indexPath
      baseCommitToken := some (.redb revision)
      loadedLayout := some "redb"
      unsavedWritesWarned := false
      adapterName := adapterName.getD base.adapterName }, storeFile)

/-- `_recover_contended_commit`. -/
def recoverContendedCommit (storeFile : StoreFile Text) : SaveResult × Base Path × StoreFile Text :=
  if isMissing storeFile then (.notPublished, base, storeFile)
  else
    match readManifestWithRetry codec env.disk storeFile
        [busy.retries 0, busy.retries 1, busy.retries 2] with
    | none => (.outcomeUnknown, base, storeFile)
    | some manifest =>
      match commitTokenFromManifest manifest with
      | none => (.failed, base, storeFile)
      | some revision =>
        if base.baseCommitToken ≠ some (.redb revision) ∧
            (snapshot.emptyLazy ∨ revision.activeGenerationPath = indexPath) then
          publish base target adapterName indexPath manifest storeFile
        else (.notPublished, base, storeFile)

/-- The index path of a save: `index` for an empty store, else the next generation. -/
def savedIndexPath (nextIndexPath : String) : String :=
  if snapshot.emptyLazy then indexDir else nextIndexPath

/-- `save` under the writer lock. `written` says whether the new generation could be written;
`env` has the directory with it. -/
def save [DecidableEq Path] (dir : Directory Text) (nextIndexPath : String) (written : Bool) :
    SaveResult × Base Path × StoreFile Text :=
  if requireFreshBaseGeneration codec busy dir base target then
    if snapshot.emptyLazy || written then
      let indexPath := savedIndexPath snapshot nextIndexPath
      let expected :=
        if isMissing dir.storeFile then some none else expectedRevision base.baseCommitToken
      match expected with
      | none => (.failed, base, dir.storeFile)
      | some expected =>
        match writeContended codec env busy dir.storeFile expected
            (snapshot.payloads codec (adapterName.getD base.adapterName) indexPath) with
        | (.ok manifest, storeFile) => publish base target adapterName indexPath manifest storeFile
        | (.error .other, storeFile) => (.failed, base, storeFile)
        | (.error .contended, storeFile) =>
          recoverContendedCommit codec env busy snapshot base target adapterName indexPath storeFile
    else (.failed, base, dir.storeFile)
  else (.failed, base, dir.storeFile)

end Save

/-! ## Truthfulness -/

theorem readManifestWithRetry_eq_some {codec : JsonCodec Text} {disk : Disk}
    {storeFile : StoreFile Text} {manifest : Manifest} {retries : List Bool}
    (h : readManifestWithRetry codec disk storeFile retries = some manifest) :
    ∃ store, openVerified codec disk storeFile none = some store ∧ store.manifest = manifest := by
  induction retries with
  | nil => cases h
  | cons busy rest ih =>
    cases busy with
    | true => exact ih h
    | false => exact Option.map_eq_some_iff.mp h


section Truthful

variable {codec : JsonCodec Text} {env : Env} {busy : Contention} {snapshot : Snapshot Text}
  {base : Base Path} {target : Path} {adapterName : Option String} {indexPath : String}
  {payloads : LegacyPayloads Text} {dir : Directory Text}

/-- The directory holds the snapshot that the base names, or no database. -/
def HoldsBase (codec : JsonCodec Text) (dir : Directory Text) (base : Base Path) : Prop :=
  dir.storeFile = .missing ∨ ∃ store, openVerified codec dir.disk dir.storeFile none = some store ∧
    base.baseCommitToken = some (.redb (.fromManifest store.manifest))

/-- The result of a save says what has become of the database. -/
structure Truthful (codec : JsonCodec Text) (env : Env) (dir : Directory Text)
    (payloads : LegacyPayloads Text) (base : Base Path)
    (outcome : SaveResult × Base Path × StoreFile Text) : Prop where
  returned : outcome.1 = .returned →
    ∃ store, openVerified codec env.disk outcome.2.2 none = some store ∧
      store.payloads = payloads ∧
      outcome.2.1.baseCommitToken = some (.redb (.fromManifest store.manifest))
  notPublished : outcome.1 = .notPublished →
    outcome.2.2 = dir.storeFile ∧ HoldsBase codec dir base
  raised : outcome.1 ≠ .returned → outcome.2.1 = base

theorem truthful_failed (storeFile : StoreFile Text) :
    Truthful codec env dir payloads base (.failed, base, storeFile) :=
  ⟨nofun, nofun, fun _ => rfl⟩

theorem commitTokenFromManifest_eq_some {manifest : Manifest} {revision : StoreRevision}
    (h : commitTokenFromManifest manifest = some revision) :
    revision = .fromManifest manifest := by
  simp only [commitTokenFromManifest, Option.bind_eq_bind, Option.bind_eq_some_iff, Option.pure_def,
    Option.some.injEq] at h
  obtain ⟨-, -, h⟩ := h
  exact h.symm

theorem holdsBase_of_fresh [DecidableEq Path]
    (h : requireFreshBaseGeneration codec busy dir base target) : HoldsBase codec dir base := by
  unfold requireFreshBaseGeneration currentAdapterCommit at h
  cases hfile : dir.storeFile with
  | missing => exact .inl hfile
  | blank => simp [hfile, isMissing, openVerified, openVerifiedAtStoreFile] at h
  | tables tables =>
    right
    rw [hfile] at h ⊢
    cases hbusy : busy.fresh with
    | true => simp [isMissing, hbusy] at h
    | false =>
      cases hstore : openVerified codec dir.disk (.tables tables) none with
      | none => simp [isMissing, hstore] at h
      | some store =>
        cases htoken : commitTokenFromManifest store.manifest with
        | none => simp [isMissing, hstore, htoken] at h
        | some revision =>
          simp only [isMissing, hbusy, hstore, htoken, Option.bind_eq_bind, 
            Option.bind_some, Option.pure_def, Bool.false_eq_true, if_false, Bool.and_eq_true,
            decide_eq_true_eq] at h
          obtain rfl := commitTokenFromManifest_eq_some htoken
          exact ⟨store, rfl, h.2⟩

theorem publish_truthful {manifest : Manifest} {storeFile : StoreFile Text}
    {store : VerifiedAdapterStore Text}
    (hopen : openVerified codec env.disk storeFile none = some store)
    (hmanifest : store.manifest = manifest) (hpayloads : store.payloads = payloads) :
    Truthful codec env dir payloads base
      (publish base target adapterName indexPath manifest storeFile) := by
  unfold publish
  split
  next => exact truthful_failed storeFile
  next revision htoken =>
    obtain rfl := commitTokenFromManifest_eq_some htoken
    obtain rfl := hmanifest
    exact ⟨fun _ => ⟨store, hopen, hpayloads, rfl⟩, nofun, fun h => absurd rfl h⟩

/-- A committed snapshot does not have the token of the base. -/
theorem Published.token_ne {manifest : Manifest} {after : StoreFile Text}
    (h : Published codec env dir.storeFile payloads manifest after) (hbase : HoldsBase codec dir base)
    (hrandom : dir.storeFile = .missing → ∀ revision,
      base.baseCommitToken = some (.redb revision) →
        revision.storeUuid ≠ randomStoreUuid env.random) :
    base.baseCommitToken ≠ some (.redb (.fromManifest manifest)) := by
  intro hsame
  rcases hbase with hmissing | ⟨store, hopen, htoken⟩
  · exact hrandom hmissing _ hsame (h.revision.1 hmissing)
  · cases hfile : dir.storeFile with
    | missing => rw [hfile] at hopen; cases hopen
    | blank => rw [hfile] at hopen; cases hopen
    | tables tables =>
      rw [hfile] at hopen
      obtain ⟨_, _, hopens⟩ := openTables_eq_some.mp hopen
      have hnext := h.revision.2 store.manifest (by rw [hfile]; exact hopens.manifest)
      have hrevision : StoreRevision.fromManifest store.manifest = .fromManifest manifest := by
        simpa [htoken] using hsame
      have hsequence : store.manifest.commitSequence = manifest.commitSequence :=
        congrArg StoreRevision.commitSequence hrevision
      omega

/-- After a commit, recovery finds it or cannot tell. -/
theorem recover_published {manifest : Manifest} {after : StoreFile Text}
    (h : Published codec env dir.storeFile payloads manifest after)
    (hne : base.baseCommitToken ≠ some (.redb (.fromManifest manifest)))
    (hpath : snapshot.emptyLazy ∨ manifest.activeGenerationPath = indexPath) :
    Truthful codec env dir payloads base
      (recoverContendedCommit codec env busy snapshot base target adapterName indexPath after) := by
  obtain ⟨tables, rfl, -⟩ := h.after
  unfold recoverContendedCommit
  rw [if_neg (by simp [isMissing])]
  split
  next => exact ⟨nofun, nofun, fun _ => rfl⟩
  next found hread =>
    obtain ⟨store, hopen, rfl⟩ := readManifestWithRetry_eq_some hread
    obtain ⟨hmanifest, hpayloads⟩ := h.opens hopen
    split
    next => exact truthful_failed _
    next revision htoken =>
      obtain rfl := commitTokenFromManifest_eq_some htoken
      rw [hmanifest, if_pos ⟨hne, hpath⟩]
      exact publish_truthful hopen hmanifest hpayloads

/-- Without a commit, recovery finds the base or cannot tell. -/
theorem recover_untouched {after : StoreFile Text} (h : Untouched dir.storeFile after)
    (hbase : HoldsBase codec dir base) :
    Truthful codec env dir payloads base
      (recoverContendedCommit codec env busy snapshot base target adapterName indexPath after) := by
  unfold recoverContendedCommit
  split
  next hmissing =>
    refine ⟨nofun, fun _ => ⟨?_, hbase⟩, fun _ => rfl⟩
    rcases h with rfl | ⟨-, rfl⟩
    · rfl
    · cases hmissing
  next hfile =>
    split
    next => exact ⟨nofun, nofun, fun _ => rfl⟩
    next found hread =>
      obtain ⟨store, hopen, rfl⟩ := readManifestWithRetry_eq_some hread
      rcases h with rfl | ⟨-, rfl⟩
      · -- the file is the one that the freshness check has opened
        split
        next => exact truthful_failed _
        next revision htoken =>
          obtain rfl := commitTokenFromManifest_eq_some htoken
          have hsame : base.baseCommitToken = some (.redb (.fromManifest store.manifest)) := by
            rcases hbase with hmissing | ⟨before, hbefore, hbase⟩
            · rw [hmissing] at hfile
              exact absurd rfl hfile
            · rw [hbase]
              cases htables : dir.storeFile with
              | missing => rw [htables] at hopen; cases hopen
              | blank => rw [htables] at hopen; cases hopen
              | tables tables =>
                rw [htables] at hopen hbefore
                obtain ⟨_, _, hafter⟩ := openTables_eq_some.mp hopen
                obtain ⟨_, _, hopens⟩ := openTables_eq_some.mp hbefore
                rw [Option.some.inj (hopens.manifest.symm.trans hafter.manifest)]
          rw [if_neg fun hours => hours.1 hsame]
          exact ⟨nofun, fun _ => ⟨rfl, hbase⟩, fun _ => rfl⟩
      · cases hopen

end Truthful

/-- Whatever the readers do, the outcome of a save is the truth. A store that is created gets an
id that the base does not have. -/
theorem save_truthful [DecidableEq Path] (codec : JsonCodec Text) (env : Env) (busy : Contention)
    (snapshot : Snapshot Text) (base : Base Path) (target : Path) (adapterName : Option String)
    (dir : Directory Text) (nextIndexPath : String) (written : Bool)
    (hrandom : dir.storeFile = .missing → ∀ revision,
      base.baseCommitToken = some (.redb revision) →
        revision.storeUuid ≠ randomStoreUuid env.random) :
    Truthful codec env dir
      (snapshot.payloads codec (adapterName.getD base.adapterName)
        (savedIndexPath snapshot nextIndexPath)) base
      (save codec env busy snapshot base target adapterName dir nextIndexPath written) := by
  unfold save
  split
  case isFalse => exact truthful_failed _
  case isTrue hfresh =>
    have hbase := holdsBase_of_fresh hfresh
    split
    case isFalse => exact truthful_failed _
    case isTrue =>
      dsimp only
      split
      next => exact truthful_failed _
      next expected _ =>
        have hcases := writeContended_cases codec env busy dir.storeFile expected
          (snapshot.payloads codec (adapterName.getD base.adapterName)
            (savedIndexPath snapshot nextIndexPath))
        split
        next manifest storeFile hwrite =>
          rw [hwrite] at hcases
          rcases hcases with ⟨_, hpublished, hanswer⟩ | ⟨-, _, hfailure⟩
          · obtain ⟨rfl, hopen⟩ := hanswer manifest rfl
            obtain ⟨store, hstore⟩ := Option.isSome_iff_exists.mp hopen
            obtain ⟨hmanifest, hpayloads⟩ := hpublished.opens hstore
            exact publish_truthful hstore hmanifest hpayloads
          · cases hfailure
        next => exact truthful_failed _
        next storeFile hwrite =>
          rw [hwrite] at hcases
          rcases hcases with ⟨manifest, hpublished, -⟩ | ⟨huntouched, -⟩
          · refine recover_published hpublished (hpublished.token_ne hbase hrandom) ?_
            obtain ⟨parsed, hparsed, hpath⟩ := hpublished.path
            obtain ⟨hlazy, hindex⟩ := parse_snapshot hparsed
            cases hempty : snapshot.emptyLazy with
            | true => exact .inl rfl
            | false => exact .inr ((hpath (hlazy.trans hempty)).trans hindex)
          · exact recover_untouched huntouched hbase

def singleSnapshot : Snapshot Value where
  bits := 2
  dim := some 8
  emptyLazy := false
  sidecarDigests := ∅
  idMapJson := (singlePayloads "").idMapJson
  documentsJson := (singlePayloads "").documentsJson
  metadataJson := (singlePayloads "").metadataJson

/-- A base that has been loaded from another directory. -/
def otherBase : Base String where
  path := some "other"
  baseGenerationPath := some "vectors/g000000000007.odb"
  baseCommitToken := some (.redb ⟨"other", 7, 7, "vectors/g000000000007.odb", none, 1⟩)
  loadedLayout := some "redb"
  unsavedWritesWarned := true
  adapterName := "langchain"

/-- A reader that comes after the commit and stays for two of the retries. -/
theorem save_truthful_contended :
    let busy := { Contention.none with reverify := true, retries := fun i => i < 2 }
    let outcome := save .ofTrees singleEnv busy singleSnapshot otherBase "store" none
      ⟨.missing, singleEnv.disk, none⟩ "vectors/g000000000001.odb" true
    Truthful .ofTrees singleEnv ⟨.missing, singleEnv.disk, none⟩
        (singleSnapshot.payloads .ofTrees "langchain" "vectors/g000000000001.odb") otherBase
        outcome ∧ outcome.1 = .returned := by
  intro busy outcome
  have htruthful := save_truthful .ofTrees singleEnv busy singleSnapshot otherBase "store" none
    ⟨.missing, singleEnv.disk, none⟩ "vectors/g000000000001.odb" true (by
      rintro - _ ⟨rfl⟩
      decide +kernel)
  have hname : (none : Option String).getD otherBase.adapterName = "langchain" := rfl
  have hpath : savedIndexPath singleSnapshot "vectors/g000000000001.odb" =
      "vectors/g000000000001.odb" := rfl
  rw [hname, hpath] at htruthful
  exact ⟨htruthful, by decide +kernel⟩

end OrdinalDB.Adapter
