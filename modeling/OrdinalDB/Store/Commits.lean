import OrdinalDB.Store.Edits

/-!
# Commits

What a call does to the database file, whichever call it is: it leaves the file
alone, or its transaction commits (`Call.run_cases`). `Commit` lists what a
committed transaction finds and leaves; the rules about runs of calls rest on
it and on nothing else of the calls.
-/

namespace OrdinalDB.Store

open Json

variable {Text : Type} {codec : JsonCodec Text} {env : Env} {storeFile : StoreFile Text}

/-! ## The manifest of a file -/

/-- A missing file has no manifest. -/
def StoreFile.manifest (storeFile : StoreFile Text) : Option Manifest := storeFile.rows.manifest

def StoreFile.revision (storeFile : StoreFile Text) : Option StoreRevision :=
  storeFile.manifest.map StoreRevision.fromManifest

def StoreFile.commitSequence (storeFile : StoreFile Text) : Nat :=
  storeFile.manifest.elim 0 (·.commitSequence)

def StoreFile.gcCount (storeFile : StoreFile Text) : Nat :=
  storeFile.manifest.elim 0 (·.tableCounts.gcQueue)

/-- The fields that a store keeps. -/
def Manifest.SameIdentity (before after : Manifest) : Prop :=
  after.storeUuid = before.storeUuid ∧ after.origin = before.origin ∧
    (before.createdAtUnixMs.isSome → after.createdAtUnixMs = before.createdAtUnixMs)

/-! ## Calls -/

/-- A gc record without updates writes nothing. -/
def Call.Writes : Call Text → Prop
  | .recordGenerationGc _ updates => updates ≠ []
  | _ => True

instance (call : Call Text) : Decidable call.Writes := by
  cases call <;> unfold Call.Writes <;> infer_instance

def Call.expected : Call Text → Option StoreRevision
  | .writeLegacySnapshot expected _ _ => expected
  | .commit expected _ => some expected
  | .recordGenerationGc expected _ => expected

def Call.updates : Call Text → List GenerationGcUpdate
  | .recordGenerationGc _ updates => updates
  | _ => []

/-- What the committed transaction of a call finds and leaves. -/
structure Commit (codec : JsonCodec Text) (env : Env) (storeFile : StoreFile Text)
    (call : Call Text) (after : Tables Text) (manifest : Manifest) : Prop where
  writes : call.Writes
  opened : storeFile = .missing ∨ storeFile = .tables storeFile.rows ∧
    ∃ allowedPrepared, (openTables codec env.disk storeFile.rows none allowedPrepared).isSome
  revision : storeFile.revision = call.expected
  row : after.manifest = some manifest
  sequence : manifest.commitSequence = storeFile.commitSequence + 1
  identity : ∀ before, storeFile.manifest = some before → before.SameIdentity manifest
  created : (∀ before, storeFile.manifest = some before → before.createdAtUnixMs.isSome) →
    manifest.createdAtUnixMs.isSome
  auditLog : ∃ row, after.auditLog = storeFile.rows.auditLog.insert manifest.commitSequence row
  gcQueue : after.gcQueue =
    storeFile.rows.gcQueue.insertMany (gcRows env storeFile.gcCount call.updates)
  gcCount : manifest.tableCounts.gcQueue = storeFile.gcCount + call.updates.length
  active : ∀ (id : Nat) (record : GenerationRecord), after.generations[id]? = some record →
    record.state = generationStateActive →
      id = manifest.activeGenerationId ∧ record.path = some manifest.activeGenerationPath
  answers : storeFile.Fresh → call.updates ≠ [] →
    (openTables codec env.disk after none none).isSome
  /-- A store that does not open after its commit will not open again. -/
  closed : openTables codec env.disk after none none = none →
    ∀ disk allowedPrepared, openTables codec disk after none allowedPrepared = none

/-! ## The file before a call -/

theorem storeFile_manifest {disk : Disk} {allowedPrepared : Option String}
    {previousStore : Option (VerifiedAdapterStore Text)}
    (h : currentVerifiedStore codec disk storeFile allowedPrepared = some previousStore) :
    previousStore.map (·.manifest) = storeFile.manifest := by
  rcases currentVerifiedStore_cases h with ⟨rfl, rfl⟩ | ⟨verified, _, _, rfl, -, hopens⟩
  · simp [StoreFile.manifest, StoreFile.rows, Tables.manifest, Tables.empty]
  · exact hopens.manifest.symm

theorem verifyExpectedRevision_iff {previousStore : Option (VerifiedAdapterStore Text)}
    {expected : Option StoreRevision} : verifyExpectedRevision previousStore expected ↔
      (previousStore.map (·.manifest)).map StoreRevision.fromManifest = expected := by
  cases previousStore <;> cases expected <;> simp [verifyExpectedRevision]

/-- Rows that agree with the active generation. -/
theorem active_of_agree {generations : Table Nat GenerationRecord}
    {generation : GenerationCheckpoint} {manifest : Manifest}
    (hrows : verifyGenerationRecords generations generation)
    (hid : manifest.activeGenerationId = generation.id)
    (hpath : manifest.activeGenerationPath = generation.path) {id : Nat} {record : GenerationRecord}
    (hrecord : generations[id]? = some record) (hstate : record.state = generationStateActive) :
    id = manifest.activeGenerationId ∧ record.path = some manifest.activeGenerationPath := by
  rcases ((verifyGenerationRecords_iff.mp hrows).1 id record hrecord).2 with
    ⟨-, hsame, hrecordPath⟩ | ⟨hretired, -⟩
  · exact ⟨hsame.trans hid.symm, hpath ▸ hrecordPath⟩
  · rw [hretired] at hstate
    exact absurd hstate (by decide)

theorem manifest_active {disk : Disk} {tables : Tables Text} {allowedPrepared : Option String}
    {store : VerifiedAdapterStore Text} {parsed : ParsedPayloads}
    {generation : GenerationCheckpoint}
    (h : Opens codec disk tables none allowedPrepared store parsed generation) :
    store.manifest.activeGenerationId = generation.id ∧
      store.manifest.activeGenerationPath = generation.path := by
  have := h.manifestGeneration
  simp only [verifyManifestGeneration, Bool.and_eq_true, decide_eq_true_eq] at this
  exact ⟨this.1.1.1, this.1.1.2⟩

/-! ## Each call -/

theorem Prepared.commit {expected : Option StoreRevision} {payloads : LegacyPayloads Text}
    {origin : StoreOrigin} {plan : SnapshotPlan}
    {previousStore : Option (VerifiedAdapterStore Text)} {tableCounts : TableCounts}
    {after : Tables Text} {call : Call Text}
    (h : Prepared codec env storeFile expected payloads origin plan previousStore tableCounts)
    (hafter : SnapshotWritten codec env storeFile.rows payloads plan after)
    (hwrites : call.Writes) (hexpected : call.expected = expected) (hupdates : call.updates = []) :
    Commit codec env storeFile call after plan.manifest := by
  have hprevious := storeFile_manifest h.current
  have hsequence := h.commitSequence
  have hmanifest := h.manifest
  simp only [adapterStoreManifest, Option.bind_eq_bind, Option.bind_eq_some_iff, Option.pure_def,
    Option.some.injEq] at hmanifest
  obtain ⟨_, -, hmanifest⟩ := hmanifest
  obtain ⟨next, hnext, hrecords, -⟩ := h.generations
  obtain rfl := Option.some.inj (hnext.symm.trans hafter.generations)
  obtain ⟨-, -, hgeneration, hcounts⟩ := h.manifest_verified
  rw [hprevious] at hsequence hmanifest
  constructor
  case writes => exact hwrites
  case opened =>
    rcases currentVerifiedStore_cases h.current with
      ⟨hmissing, -⟩ | ⟨verified, _, _, -, hfile, hopens⟩
    · exact .inl hmissing
    · exact .inr ⟨hfile, _, Option.isSome_of_eq_some (openTables_eq_some.mpr ⟨_, _, hopens⟩)⟩
  case revision =>
    rw [hexpected, StoreFile.revision, ← hprevious]
    exact verifyExpectedRevision_iff.mp h.revision
  case row => exact hafter.manifest
  case sequence =>
    unfold StoreFile.commitSequence
    cases hbefore : storeFile.manifest with
    | none =>
      rw [hbefore] at hsequence
      exact (Option.some.inj hsequence).symm
    | some before =>
      rw [hbefore] at hsequence
      exact checkedAdd_eq_some hsequence
  case identity =>
    intro before hbefore
    rw [hbefore] at hmanifest
    refine ⟨by simp [← hmanifest], by simp [← hmanifest], fun hcreated => ?_⟩
    obtain ⟨created, hcreated⟩ := Option.isSome_iff_exists.mp hcreated
    simp [← hmanifest, hcreated]
  case created => simp [← hmanifest]
  case auditLog => exact ⟨_, hafter.auditLog⟩
  case gcQueue =>
    rw [hupdates]
    exact hafter.gcQueue
  case gcCount =>
    -- a snapshot records no collection
    have hplan := h.counts
    simp only [snapshotTableCounts, Option.bind_eq_bind, Option.bind_eq_some_iff, Option.pure_def,
      Option.some.injEq] at hplan
    obtain ⟨_, -, _, -, rfl⟩ := hplan
    rw [hcounts, hupdates, hprevious]
    rfl
  case active =>
    intro id record hrecord hstate
    simp only [verifyManifestGeneration, Bool.and_eq_true, decide_eq_true_eq] at hgeneration
    exact active_of_agree hrecords hgeneration.1.1.1 hgeneration.1.1.2 hrecord hstate
  case answers => exact fun _ hupdated => absurd hupdates hupdated
  case closed =>
    intro hnone
    -- only the counts of the manifest can keep a written snapshot from opening
    refine openTables_eq_none hafter.manifest fun hsame => ?_
    rw [h.opens_of_counts hafter hsame] at hnone
    cases hnone

theorem Patched.commit {expected : StoreRevision} {patches : List MetadataPatch}
    {after : Tables Text} {store : VerifiedAdapterStore Text} {parsed : ParsedPayloads}
    {generation : GenerationCheckpoint} {metadata : Table String Value} {rows : List (Nat × Value)}
    (h : Patched codec env storeFile expected patches after store parsed generation metadata rows) :
    ∃ manifest, Commit codec env storeFile (.commit expected (.patchMetadata patches)) after
      manifest := by
  have hbefore : storeFile.manifest = some store.manifest := h.opens.manifest
  have hmanifest : after.manifest = some (updateMetadataPatchManifest store.manifest
      (store.manifest.commitSequence + 1) (store.manifest.tableCounts.auditLog + 1)
      (env.now 0)) := by
    simp [h.after, Tables.manifest]
  have hopened := Option.isSome_of_eq_some (openTables_eq_some.mpr ⟨_, _, h.opens⟩)
  refine ⟨_, ⟨trivial, .inr ⟨h.file, _, hopened⟩, ?_, hmanifest, ?_, ?_, ?_,
    ⟨_, by rw [h.after]; rfl⟩, ?_, ?_, ?_, fun _ hupdated => absurd rfl hupdated, ?_⟩⟩
  · rw [StoreFile.revision, hbefore]
    exact verifyExpectedRevision_iff.mp h.revision
  · simp [StoreFile.commitSequence, hbefore, updateMetadataPatchManifest]
  · intro before hsame
    obtain rfl := Option.some.inj (hbefore.symm.trans hsame)
    exact ⟨rfl, rfl, fun _ => rfl⟩
  · exact fun hcreated => hcreated store.manifest hbefore
  · rw [h.after]
    rfl
  · simp [StoreFile.gcCount, hbefore, updateMetadataPatchManifest, Call.updates]
  · intro id record hrecord hstate
    obtain ⟨hid, hpath⟩ := manifest_active h.opens
    rw [h.after] at hrecord
    exact active_of_agree h.opens.generations hid hpath hrecord hstate
  · intro hnone
    by_cases hcounts : after.counts = { store.manifest.tableCounts with
        auditLog := store.manifest.tableCounts.auditLog + 1 }
    · obtain ⟨hopens, hcloses⟩ := h.opens_iff hcounts
      refine hcloses (by_contra fun hfits => ?_)
      rw [openTables_eq_some.mpr ⟨_, _, hopens hfits⟩] at hnone
      cases hnone
    · exact openTables_eq_none hmanifest fun hsame => hcounts hsame.symm

theorem GcRecorded.commit {expected : Option StoreRevision} {updates : List GenerationGcUpdate}
    {after : Tables Text} {store : VerifiedAdapterStore Text} {parsed : ParsedPayloads}
    {generation : GenerationCheckpoint}
    (h : GcRecorded codec env storeFile expected updates after store parsed generation)
    (hwrites : updates ≠ []) :
    ∃ manifest, Commit codec env storeFile (.recordGenerationGc expected updates) after
      manifest := by
  have hbefore : storeFile.manifest = some store.manifest := h.opens.manifest
  have hmanifest : after.manifest = some (updateGcManifestCounts store.manifest
      (store.manifest.commitSequence + 1)
      (store.manifest.tableCounts.gcQueue + updates.length)
      (store.manifest.tableCounts.auditLog + 1) (env.now 0)) := by
    simp [h.after, Tables.manifest]
  have hopened := Option.isSome_of_eq_some (openTables_eq_some.mpr ⟨_, _, h.opens⟩)
  refine ⟨_, ⟨hwrites, .inr ⟨h.file, _, hopened⟩, ?_, hmanifest, ?_, ?_, ?_,
    ⟨_, by rw [h.after]; rfl⟩, ?_, ?_, ?_, fun hfresh _ => ?_, ?_⟩⟩
  · rw [StoreFile.revision, hbefore]
    exact verifyExpectedRevision_iff.mp h.revision
  · simp [StoreFile.commitSequence, hbefore, updateGcManifestCounts]
  · intro before hsame
    obtain rfl := Option.some.inj (hbefore.symm.trans hsame)
    exact ⟨rfl, rfl, fun _ => rfl⟩
  · exact fun hcreated => hcreated store.manifest hbefore
  · rw [h.after]
    simp [StoreFile.gcCount, hbefore, Call.updates]
  · simp [StoreFile.gcCount, hbefore, updateGcManifestCounts, Call.updates]
  · intro id record hrecord hstate
    obtain ⟨hid, hpath⟩ := manifest_active h.opens
    rw [h.after] at hrecord
    exact active_of_agree h.opens.generations hid hpath hrecord hstate
  · exact Option.isSome_of_eq_some
      (openTables_eq_some.mpr ⟨_, _, h.opens_after (h.counts hfresh)⟩)
  · intro hnone
    refine openTables_eq_none hmanifest fun hsame => ?_
    have hopens := h.opens_after hsame.symm
    rw [openTables_eq_some.mpr ⟨_, _, hopens⟩] at hnone
    cases hnone

/-! ## Every call -/

/-- A call has left the file, or its transaction has committed. -/
def CallEffect (codec : JsonCodec Text) (env : Env) (storeFile : StoreFile Text) (call : Call Text)
    (outcome : Outcome Text) : Prop :=
  outcome.2 = storeFile ∧ (outcome.1 = none ∨ ¬call.Writes) ∨
    ∃ after manifest, outcome = reopen codec env after ∧
      Commit codec env storeFile call after manifest

theorem callEffect_failed {call : Call Text} :
    CallEffect codec env storeFile call (none, storeFile) := .inl ⟨rfl, .inl rfl⟩

theorem writeLegacySnapshotInner_effect {expected : Option StoreRevision}
    {payloads : LegacyPayloads Text} {origin : StoreOrigin} {call : Call Text}
    (hwrites : call.Writes) (hexpected : call.expected = expected) (hupdates : call.updates = []) :
    CallEffect codec env storeFile call
      (writeLegacySnapshotInner codec env storeFile expected payloads origin) := by
  unfold writeLegacySnapshotInner
  split
  next => exact callEffect_failed
  next plan hplan =>
    obtain ⟨previousStore, tableCounts, h⟩ := prepareSnapshot_eq_some.mp hplan
    obtain ⟨next, hnext, -⟩ := h.generations
    obtain ⟨after, hafter, hwritten⟩ :=
      writeSnapshotTransaction_eq_some h.parses hnext
    rw [hafter]
    exact .inr ⟨after, plan.manifest, rfl, h.commit hwritten hwrites hexpected hupdates⟩

theorem commitMetadataPatch_effect {expected : StoreRevision} {patches : List MetadataPatch} :
    CallEffect codec env storeFile (.commit expected (.patchMetadata patches))
      (commitMetadataPatch codec env storeFile expected patches) := by
  unfold commitMetadataPatch
  split
  next => exact callEffect_failed
  next after hafter =>
    obtain ⟨_, _, _, _, _, hpatched⟩ := patchTransaction_eq_some hafter
    obtain ⟨manifest, hcommit⟩ := hpatched.commit
    exact .inr ⟨after, manifest, rfl, hcommit⟩

theorem recordGenerationGcInner_effect {expected : Option StoreRevision}
    {updates : List GenerationGcUpdate} :
    CallEffect codec env storeFile (.recordGenerationGc expected updates)
      (recordGenerationGcInner codec env storeFile expected updates) := by
  unfold recordGenerationGcInner
  split
  next hempty => exact .inl ⟨rfl, .inr fun hwrites => hwrites hempty⟩
  next hwrites =>
    split
    next => exact callEffect_failed
    next after hafter =>
      obtain ⟨_, _, _, hrecorded⟩ := gcTransaction_eq_some hafter
      obtain ⟨manifest, hcommit⟩ := hrecorded.commit hwrites
      exact .inr ⟨after, manifest, rfl, hcommit⟩

theorem Call.run_effect (codec : JsonCodec Text) (env : Env) (storeFile : StoreFile Text)
    (call : Call Text) : CallEffect codec env storeFile call (call.run codec env storeFile) := by
  cases call with
  | writeLegacySnapshot expected payloads origin =>
    exact writeLegacySnapshotInner_effect trivial rfl rfl
  | commit expected mutation =>
    cases mutation with
    | replaceLegacySnapshot payloads => exact writeLegacySnapshotInner_effect trivial rfl rfl
    | patchMetadata patches => exact commitMetadataPatch_effect
  | recordGenerationGc expected updates => exact recordGenerationGcInner_effect

end OrdinalDB.Store
