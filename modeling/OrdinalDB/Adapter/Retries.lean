import OrdinalDB.Adapter.Attempts

/-!
# Saves from a root in order

A save whose payloads have been accepted at one root is accepted at any other
(`Accepted.elsewhere`), whatever generations have been left there, and from a root
that is in order it returns (`Sound.run`).
-/

namespace OrdinalDB.Adapter

open Json Text Store

variable {Text Path : Type}

/-! ## Payloads under another path -/

section Paths

variable {codec : JsonCodec Text} {snapshot : Snapshot Text} {adapterName path other : String}

/-- The objects of a snapshot differ in the path only. -/
theorem getElem?_adapterObject {key : String} (hkey : key ≠ "index_path") :
    (adapterObject snapshot adapterName path)[key]? =
      (adapterObject snapshot adapterName other)[key]? := by
  simp only [adapterObject, Std.ExtTreeMap.insertMany_cons, Std.ExtTreeMap.insertMany_nil,
    Std.ExtTreeMap.getElem?_insert, Std.LawfulEqCmp.compare_eq_iff_eq, Ne.symm hkey, if_false]

theorem requireExactKeys_adapterObject (expected : List String) :
    Store.requireExactKeys (adapterObject snapshot adapterName path) expected =
      Store.requireExactKeys (adapterObject snapshot adapterName other) expected := by
  have hmem : ∀ key, key ∈ adapterObject snapshot adapterName path ↔
      key ∈ adapterObject snapshot adapterName other := by
    intro key
    by_cases hkey : key = "index_path"
    · subst hkey
      simp only [Std.ExtTreeMap.mem_iff_isSome_getElem?, adapterObject_indexPath,
        Option.isSome_some]
    · simp only [Std.ExtTreeMap.mem_iff_isSome_getElem?,
        @getElem?_adapterObject _ snapshot adapterName path other key hkey]
  unfold Store.requireExactKeys
  rw [Bool.eq_iff_iff]
  simp only [Bool.and_eq_true, List.all_eq_true, Std.ExtTreeMap.mem_keys, decide_eq_true_eq, hmem]

theorem parseObjects_path {idMap documents metadata : Object} {parsed : ParsedPayloads}
    (hvalid : validateIndexPath other)
    (h : ParsedPayloads.parseObjects (adapterObject snapshot adapterName path) idMap documents
      metadata = some parsed) :
    ParsedPayloads.parseObjects (adapterObject snapshot adapterName other) idMap documents
      metadata = some { parsed with indexPath := other } := by
  have hfield : ∀ key, key ≠ "index_path" → (adapterObject snapshot adapterName other)[key]? =
      (adapterObject snapshot adapterName path)[key]? := fun key hkey => getElem?_adapterObject hkey
  simp only [ParsedPayloads.parseObjects, Option.bind_eq_bind, Option.bind_eq_some_iff,
    Option.guard_eq_some', Option.pure_def, Option.some.injEq, exists_const] at h ⊢
  obtain ⟨hkeys, hidMap, hdocuments, hmetadata, hschema, hidMap', hdocuments', hmetadata', name,
    hname, bits, hbits, dim, hdim, lazy, hlazy, found, -, strings, hstrings, slots, hslots, next,
    hnext, texts, htexts, table, htable, hmaps, rfl⟩ := h
  refine ⟨requireExactKeys_adapterObject _ ▸ hkeys, hidMap, hdocuments, hmetadata, ?_, hidMap',
    hdocuments', hmetadata', name, ?_, bits, ?_, dim, ?_, lazy, ?_, other, ?_, strings, hstrings,
    slots, hslots, next, hnext, texts, htexts, table, htable, ?_, rfl⟩
  · rw [requiredString, hfield _ (by decide)]
    exact hschema
  · rw [requiredString, hfield _ (by decide)]
    exact hname
  · rw [requiredBits, requiredU64, hfield _ (by decide)]
    exact hbits
  · rw [optionalDim, hfield _ (by decide)]
    exact hdim
  · rw [requiredBool, hfield _ (by decide)]
    exact hlazy
  · rw [requiredString, adapterObject_indexPath]
    exact Option.filter_eq_some_iff.mpr ⟨rfl, hvalid⟩
  · exact { hmaps with }

theorem depth_adapterObject :
    (Value.ofTable (adapterObject snapshot adapterName path)).depth ≤ maxReadDepth := by
  have hdepth : (Value.ofTable (adapterObject snapshot adapterName path)).depth ≤ 1 + 1 := by
    refine Value.depth_ofTable_le.mpr fun key value hvalue => ?_
    have hmem := (Table.ofList_eq_some (by simp)).mp hvalue
    simp only [List.mem_cons, Prod.mk.injEq, List.not_mem_nil, or_false] at hmem
    rcases hmem with ⟨-, rfl⟩ | ⟨-, rfl⟩ | ⟨-, rfl⟩ | ⟨-, rfl⟩ | ⟨-, rfl⟩ | ⟨-, rfl⟩ | ⟨-, rfl⟩
    case inr.inr.inr.inl => cases snapshot.dim <;> exact Nat.zero_le _
    case inr.inr.inr.inr.inr.inr =>
      refine Value.depth_ofTable_le.mpr fun name digest hdigest => ?_
      rw [Std.ExtTreeMap.getElem?_map] at hdigest
      obtain ⟨text, -, rfl⟩ := Option.map_eq_some_iff.mp hdigest
      exact le_rfl
    all_goals exact Nat.zero_le _
  exact hdepth.trans (by decide)

/-- A snapshot that parses does so under every index path. -/
theorem parse_path {parsed : ParsedPayloads} (hvalid : validateIndexPath other)
    (h : ParsedPayloads.parse codec (snapshot.payloads codec adapterName path) = some parsed) :
    ParsedPayloads.parse codec (snapshot.payloads codec adapterName other) =
      some { parsed with indexPath := other } := by
  obtain ⟨adapter, idMap, documents, metadata, hadapter, hidMap, hdocuments, hmetadata,
    hobjects⟩ := ParsedPayloads.parse_eq_some.mp h
  obtain rfl := object_of_write (canonical_adapterObject snapshot adapterName path) hadapter
  refine ParsedPayloads.parse_eq_some.mpr ⟨_, idMap, documents, metadata, ?_, hidMap, hdocuments,
    hmetadata, parseObjects_path hvalid hobjects⟩
  rw [Snapshot.payloads, parseJsonObject_write codec (canonical_adapterObject ..),
    if_pos depth_adapterObject]
  exact Value.asObject_ofTable _

end Paths

/-! ## Accepted saves -/

section Accepted

variable {json : JsonModule Text} {digest : Text → String} {attempt again : Attempt Text Path}
  {site after : Site Text}

/-- The name that the adapter is saved under. -/
def Attempt.name (attempt : Attempt Text Path) : String :=
  attempt.adapterName.getD attempt.base.adapterName

theorem payloads_call {snapshot : Snapshot Text}
    (h : attempt.store.snapshot json digest = some snapshot) :
    attempt.store.payloads json digest attempt.base (attempt.call site) =
      some (snapshot.payloads json.codec attempt.name
        (attempt.store.indexPath (attempt.call site))) := by
  rw [WorkingCopy.payloads, h]
  rfl

/-- The payloads of a save pass the checks that come before the database is opened. -/
structure Accepted (json : JsonModule Text) (digest : Text → String)
    (attempt : Attempt Text Path) (site : Site Text) (snapshot : Snapshot Text)
    (parsed : ParsedPayloads) (generation : GenerationCheckpoint) : Prop where
  taken : attempt.store.snapshot json digest = some snapshot
  parses : ParsedPayloads.parse json.codec (snapshot.payloads json.codec attempt.name
    (attempt.store.indexPath (attempt.call site))) = some parsed
  checkpoint : activeGenerationCheckpoint (attempt.published site).disk parsed none =
    some generation
  validated : parsed.validateAgainstGeneration generation

theorem accepted_of_inputs
    (h : (attempt.store.payloads json digest attempt.base (attempt.call site)).any fun payloads =>
      (snapshotInputs json.codec (attempt.call site).env payloads).isSome) :
    ∃ snapshot parsed generation,
      Accepted json digest attempt site snapshot parsed generation := by
  obtain ⟨payloads, hpayloads, hinputs⟩ := (Option.any_eq_true _ _).mp h
  obtain ⟨snapshot, hsnapshot, rfl⟩ := Option.map_eq_some_iff.mp hpayloads
  obtain ⟨⟨parsed, generation⟩, hsome⟩ := Option.isSome_iff_exists.mp hinputs
  simp only [snapshotInputs, Option.bind_eq_bind, Option.bind_eq_some_iff, Option.guard_eq_some',
    Option.pure_def, Option.some.injEq, Prod.mk.injEq, exists_const] at hsome
  obtain ⟨_, hparses, _, hcheckpoint, hvalidated, rfl, rfl⟩ := hsome
  exact ⟨snapshot, _, _, hsnapshot, hparses, hcheckpoint, hvalidated⟩

section Parsed

variable {snapshot : Snapshot Text} {parsed : ParsedPayloads} {generation : GenerationCheckpoint}

theorem Accepted.fields (h : Accepted json digest attempt site snapshot parsed generation) :
    parsed.emptyLazy = attempt.store.isEmptyLazy ∧
      parsed.indexPath = attempt.store.indexPath (attempt.call site) := by
  obtain ⟨_, _, _, _, _, hparts⟩ := WorkingCopy.snapshot_eq_some h.taken
  obtain ⟨hlazy, hpath⟩ := parse_snapshot h.parses
  exact ⟨hlazy.trans hparts.emptyLazy, hpath⟩

/-- The checkpoint of the generation that a save writes. -/
def Attempt.checkpoint (attempt : Attempt Text Path) (site : Site Text) : GenerationCheckpoint where
  id := site.nextGenerationId
  path := generationIndexPath site.nextGenerationId
  emptyLazy := false
  bits := attempt.bundle.bits
  dim := attempt.bundle.dim
  vectorCount := attempt.bundle.vectorCount
  manifestSha256 := some attempt.bundle.manifestSha256
  manifestSizeBytes := some attempt.bundle.manifestSizeBytes

theorem bundle_published (hlazy : attempt.store.isEmptyLazy = false)
    (hnext : site.nextGenerationId < 10 ^ 12) :
    (attempt.published site).disk.bundle (generationIndexPath site.nextGenerationId) =
      some attempt.bundle := by
  have hentry : (attempt.published site).entry site.nextName =
      some (.dir (some attempt.bundle)) := by
    rw [Attempt.published, hlazy, if_neg Bool.false_ne_true, Site.entry_put, if_pos rfl]
  exact Option.bind_eq_some_iff.mpr ⟨_, (locate_nextIndexPath hnext).1,
    Option.bind_eq_some_iff.mpr ⟨_, hentry, rfl⟩⟩

theorem checkpoint_published (hlazy : attempt.store.isEmptyLazy = false)
    (hnext : site.nextGenerationId < 10 ^ 12) (hparsed : parsed.emptyLazy = false)
    (hpath : parsed.indexPath = generationIndexPath site.nextGenerationId) :
    activeGenerationCheckpoint (attempt.published site).disk parsed none =
      some (attempt.checkpoint site) := by
  rw [activeGenerationCheckpoint, hparsed, if_neg Bool.false_ne_true, hpath,
    bundle_published hlazy hnext, (locate_nextIndexPath hnext).2]
  rfl

theorem noVectorArtifacts_bare {disk : Disk} (hindex : disk.index = none)
    (hvectors : disk.vectors = none) : noVectorArtifacts disk indexDir none := by
  have hlocate : locate indexDir = some .index := by decide
  have hmissing : disk.exists? .index = false := by simp [Disk.exists?, Disk.node, hindex]
  simp [noVectorArtifacts, hvectors, hlocate, hmissing]

/-- A save that is accepted at one root is at another one. -/
theorem Accepted.elsewhere (h : Accepted json digest attempt site snapshot parsed generation)
    (hstore : again.store = attempt.store) (hbundle : again.bundle = attempt.bundle)
    (hname : again.name = attempt.name) (hnext : site.nextGenerationId < 10 ^ 12)
    (hnext' : after.nextGenerationId < 10 ^ 12) (hindex : after.disk.index = none)
    (hvectors : attempt.store.isEmptyLazy → after.disk.vectors = none ∨ after.disk = site.disk) :
    ∃ parsed' generation', Accepted json digest again after snapshot parsed' generation' := by
  obtain ⟨hlazy, hpath⟩ := h.fields
  have hsnapshot : again.store.snapshot json digest = some snapshot := hstore ▸ h.taken
  cases hempty : attempt.store.isEmptyLazy with
  | true =>
    have hplaces : ∀ site : Site Text, attempt.store.indexPath (attempt.call site) = indexDir ∧
        again.store.indexPath (again.call site) = indexDir := fun site => by
      simp [WorkingCopy.indexPath, hstore, hempty]
    have hdisk : (again.published after).disk = after.disk := by
      simp [Attempt.published, hstore, hempty]
    have hbefore : noVectorArtifacts site.disk parsed.indexPath none := by
      have hcheckpoint := h.checkpoint
      rw [activeGenerationCheckpoint, if_pos (hlazy.trans hempty), Attempt.published,
        if_pos hempty] at hcheckpoint
      obtain ⟨_, hguard, -⟩ := Option.bind_eq_some_iff.mp hcheckpoint
      exact (Option.guard_eq_some' _).mp hguard
    have hnone : noVectorArtifacts after.disk parsed.indexPath none := by
      rcases hvectors hempty with hnone | hsame
      · rw [hpath, (hplaces site).1]
        exact noVectorArtifacts_bare hindex hnone
      · rw [hsame]
        exact hbefore
    refine ⟨parsed, generation, hsnapshot, ?_, ?_, h.validated⟩
    · rw [hname, (hplaces after).2, ← (hplaces site).1]
      exact h.parses
    · obtain ⟨-, hid, hgeneration⟩ := checkpoint_lazy h.checkpoint (hlazy.trans hempty)
      have hcheckpoint := h.checkpoint
      rw [activeGenerationCheckpoint, if_pos (hlazy.trans hempty)] at hcheckpoint ⊢
      obtain ⟨_, -, hsame⟩ := Option.bind_eq_some_iff.mp hcheckpoint
      rw [hdisk, hnone]
      exact hsame
  | false =>
    have hplace : attempt.store.indexPath (attempt.call site) =
        generationIndexPath site.nextGenerationId := by
      rw [WorkingCopy.indexPath, hempty, if_neg Bool.false_ne_true]
      rfl
    have hplace' : again.store.indexPath (again.call after) =
        generationIndexPath after.nextGenerationId := by
      rw [WorkingCopy.indexPath, hstore, hempty, if_neg Bool.false_ne_true]
      rfl
    have hvalid : validateIndexPath (generationIndexPath after.nextGenerationId) :=
      Option.isSome_of_eq_some (locate_nextIndexPath hnext').1
    have hgeneration := checkpoint_published hempty hnext (hlazy.trans hempty) (hpath.trans hplace)
    obtain rfl := Option.some.inj (hgeneration.symm.trans h.checkpoint)
    have hvalidated := h.validated
    have hcheckpoint : again.checkpoint after = { attempt.checkpoint site with
        id := after.nextGenerationId
        path := generationIndexPath after.nextGenerationId } := by
      rw [Attempt.checkpoint, hbundle]
      rfl
    refine ⟨{ parsed with indexPath := generationIndexPath after.nextGenerationId },
      { attempt.checkpoint site with
        id := after.nextGenerationId
        path := generationIndexPath after.nextGenerationId }, hsnapshot, ?_, ?_, ?_⟩
    · rw [hname, hplace']
      exact parse_path hvalid h.parses
    · rw [← hcheckpoint]
      exact checkpoint_published (hstore ▸ hempty) hnext' (hlazy.trans hempty) rfl
    · simp only [ParsedPayloads.validateAgainstGeneration, hlazy.trans hempty, Attempt.checkpoint,
        Bool.and_eq_true, Bool.false_eq_true, if_false] at hvalidated ⊢
      obtain ⟨hlazy', ⟨⟨⟨⟨⟨-, hbits⟩, hdim⟩, hcount⟩, hslots⟩, hall⟩⟩ := hvalidated
      exact ⟨hlazy', ⟨⟨⟨⟨⟨decide_eq_true trivial, hbits⟩, hdim⟩, hcount⟩, hslots⟩, hall⟩⟩

end Parsed

end Accepted

/-! ## Roots that can be saved to -/

section Sound

variable {json : JsonModule Text} {digest : Text → String} {around : Surroundings Text}
  {attempt : Attempt Text Path} {site after : Site Text} {store : VerifiedAdapterStore Text}
  {snapshot : Snapshot Text} {parsed : ParsedPayloads} {generation : GenerationCheckpoint}

/-- The root holds a store that a new process loads. -/
structure Held (json : JsonModule Text) (around : Surroundings Text) (site : Site Text)
    (store : VerifiedAdapterStore Text) (parsed : ParsedPayloads)
    (generation : GenerationCheckpoint) : Prop where
  file : site.storeFile = .tables site.storeFile.rows
  opens : Opens json.codec site.disk site.storeFile.rows none none store parsed generation
  reads : WorkingCopy.Readable json around site.disk store.payloads parsed
  lazyPath : parsed.emptyLazy = true → parsed.indexPath = indexDir

/-- A root that the next save finds in order. -/
structure Sound (json : JsonModule Text) (around : Surroundings Text) (site : Site Text) :
    Prop where
  index : site.disk.index = none
  fresh : site.storeFile.Fresh
  /-- No generation that has a row is numbered like the next one. -/
  rows : ∀ id ∈ site.storeFile.rows.generations, id < site.nextGenerationId
  store : site.storeFile = .missing ∨
    ∃ store parsed generation, Held json around site store parsed generation

theorem Held.openVerified (h : Held json around site store parsed generation) :
    Store.openVerified json.codec site.disk site.storeFile none = some store := by
  rw [h.file]
  exact openTables_eq_some.mpr ⟨parsed, generation, h.opens⟩

theorem Held.load (h : Held json around site store parsed generation) :
    ∃ loaded, AdapterStore.load json around site.disk site.storeFile none = some loaded ∧
      loaded.baseCommitToken = .fromManifest store.manifest := by
  obtain ⟨members, hmembers, hidMap⟩ := h.reads.idMap
  obtain ⟨tree, records, hshared⟩ := h.reads.metadata
  obtain ⟨index, slotToU64, hload, -⟩ :=
    load_of h.opens h.openVerified hmembers h.reads.fits hidMap hshared
  exact ⟨_, hload, rfl⟩

/-- A generation that is in use is found again. -/
theorem Grows.checkpoint {allowed allowed' : Option String} (h : Grows site after)
    (hlazy : parsed.emptyLazy = false)
    (hcheckpoint : activeGenerationCheckpoint site.disk parsed allowed = some generation) :
    activeGenerationCheckpoint after.disk parsed allowed' = some generation := by
  rw [activeGenerationCheckpoint, hlazy, if_neg Bool.false_ne_true] at hcheckpoint ⊢
  obtain ⟨bundle, hbundle, hrest⟩ := Option.bind_eq_some_iff.mp hcheckpoint
  exact Option.bind_eq_some_iff.mpr ⟨bundle, h.bundle hbundle, hrest⟩

theorem Held.emptyLazy (h : Held json around site store parsed generation) :
    parsed.emptyLazy = site.holdsEmpty := by
  have hmanifest := h.opens.manifestPayloads
  simp only [verifyManifestPayloads, Bool.and_eq_true, decide_eq_true_eq] at hmanifest
  rw [Site.holdsEmpty, h.opens.manifest, Option.any_some]
  exact hmanifest.1.1.1.2.symm

/-- Of a store that is not empty the additions hide nothing. -/
theorem Held.grow (h : Held json around site store parsed generation) (hgrows : Grows site after)
    (hlazy : parsed.emptyLazy = false) : Held json around after store parsed generation where
  file := by rw [hgrows.file]; exact h.file
  opens := by
    rw [hgrows.file]
    exact { h.opens with checkpoint := hgrows.checkpoint hlazy h.opens.checkpoint }
  reads :=
    { h.reads with
      fits := { h.reads.fits with
        lazy := fun hempty => absurd (hempty.symm.trans hlazy) (by decide)
        loads := fun _ bundle hbundle => by
          obtain ⟨bundle', hbundle', -⟩ := checkpoint_bundle h.opens.checkpoint hlazy
          obtain rfl := Option.some.inj ((hgrows.bundle hbundle').symm.trans hbundle)
          exact h.reads.fits.loads hlazy _ hbundle' } }
  lazyPath := h.lazyPath

/-- With a bare root the prepared generation is the only one. -/
theorem noVectorArtifacts_prepared (hindex : site.disk.index = none)
    (hvectors : site.disk.vectors = none) (hnext : site.nextGenerationId < 10 ^ 12)
    (node : Store.Node) :
    noVectorArtifacts (site.put site.nextName node).disk indexDir
      (some (generationIndexPath site.nextGenerationId)) := by
  have hlocate : locate indexDir = some .index := by decide
  have hmissing : (site.put site.nextName node).disk.exists? .index = false := by
    simp [Site.put, Disk.exists?, Disk.node, hindex]
  have hentries : (site.put site.nextName node).disk.vectors =
      some ((∅ : Table String Store.Node).insert site.nextName node) := by
    simp [Site.put, hvectors]
  rw [noVectorArtifacts, hentries, Bool.and_eq_true]
  constructor
  · simp [hlocate, hmissing]
  · refine List.all_eq_true.mpr fun row hrow => ?_
    have hrow := Std.ExtTreeMap.mem_toList_iff_getElem?_eq_some.mp hrow
    have hname : row.1 = site.nextName := by
      by_contra hne
      rw [Table.getElem?_insert_of_ne hne] at hrow
      simp at hrow
    have hprepared : (some (generationIndexPath site.nextGenerationId)).bind locate =
        some (.vectors row.1) := by
      rw [hname]
      exact (locate_nextIndexPath hnext).1
    simp [hprepared]

/-- The store that a save finds behind its new generation. -/
theorem Held.current (h : Held json around site store parsed generation)
    (hindex : site.disk.index = none) (hnext : site.nextGenerationId < 10 ^ 12)
    (attempt : Attempt Text Path) :
    currentVerifiedStore json.codec (attempt.published site).disk site.storeFile
      (if attempt.store.isEmptyLazy then none
        else some (generationIndexPath site.nextGenerationId)) = some (some store) := by
  have hcheckpoint : activeGenerationCheckpoint (attempt.published site).disk parsed
      (if attempt.store.isEmptyLazy then none
        else some (generationIndexPath site.nextGenerationId)) = some generation := by
    cases hempty : attempt.store.isEmptyLazy with
    | true =>
      rw [Attempt.published, hempty, if_pos rfl, if_pos rfl]
      exact h.opens.checkpoint
    | false =>
      rw [if_neg Bool.false_ne_true]
      cases hlazy : parsed.emptyLazy with
      | false => exact (grows_published attempt hnext).checkpoint hlazy h.opens.checkpoint
      | true =>
        have hbefore := h.opens.checkpoint
        have hnone := noVectorArtifacts_prepared hindex (h.reads.fits.lazy hlazy).2 hnext
          (.dir (some attempt.bundle))
        rw [Attempt.published, hempty, if_neg Bool.false_ne_true]
        rw [activeGenerationCheckpoint, if_pos hlazy] at hbefore ⊢
        obtain ⟨_, -, hsame⟩ := Option.bind_eq_some_iff.mp hbefore
        rw [h.lazyPath hlazy, hnone]
        exact hsame
  rw [h.file]
  exact Option.map_eq_some_iff.mpr ⟨store, openTables_eq_some.mpr ⟨parsed, generation,
    { h.opens with checkpoint := hcheckpoint }⟩, rfl⟩

/-! ## Room for a commit -/

theorem snapshotTableCounts_isSome {previous : Option Manifest}
    (hroom : ∀ manifest, previous = some manifest →
      manifest.tableCounts.generations + 1 < u64Bound ∧
        manifest.tableCounts.auditLog + 1 < u64Bound) :
    ∃ counts, snapshotTableCounts parsed generation previous = some counts := by
  have hcounts : previousCount previous (·.generations) + 1 < u64Bound ∧
      previousCount previous (·.auditLog) + 1 < u64Bound := by
    cases previous with
    | none => exact ⟨by decide, by decide⟩
    | some manifest => exact hroom manifest rfl
  obtain ⟨count, hcount⟩ : ∃ count,
      snapshotGenerationCount parsed generation previous = some count := by
    unfold snapshotGenerationCount
    dsimp only
    split
    next => exact ⟨_, rfl⟩
    next => exact ⟨_, if_pos hcounts.1⟩
  simp [snapshotTableCounts, hcount, checkedAdd, hcounts.2]

theorem adapterStoreManifest_isSome {env : Env} {counts : TableCounts} {previous : Option Manifest}
    {origin : StoreOrigin}
    (hroom : ∀ manifest, previous = some manifest → manifest.commitSequence + 1 < u64Bound) :
    ∃ manifest, adapterStoreManifest env parsed generation counts previous origin =
      some manifest := by
  obtain ⟨sequence, hsequence⟩ : ∃ sequence, snapshotCommitSequence previous = some sequence := by
    cases previous with
    | none => exact ⟨1, rfl⟩
    | some manifest => exact ⟨_, if_pos (hroom manifest rfl)⟩
  simp [adapterStoreManifest, hsequence]

/-- The checks before the transaction pass. -/
theorem Sound.prepared (h : Sound json around site) {expected : Option StoreRevision}
    (haccepted : Accepted json digest attempt site snapshot parsed generation)
    (hnext : site.nextGenerationId < 10 ^ 12) (hroom : site.Room 1)
    (hexpected : site.storeFile.rows.manifest.map StoreRevision.fromManifest = expected) :
    ∃ plan previous counts, plan.parsed = parsed ∧ plan.generation = generation ∧
      Prepared json.codec (attempt.call site).env site.storeFile expected
        (snapshot.payloads json.codec attempt.name (attempt.store.indexPath (attempt.call site)))
        .created plan previous counts := by
  obtain ⟨hlazy, hpath⟩ := haccepted.fields
  have hallowed : (if parsed.emptyLazy then none else some parsed.indexPath) =
      if attempt.store.isEmptyLazy then none
        else some (generationIndexPath site.nextGenerationId) := by
    rw [hlazy, hpath, WorkingCopy.indexPath]
    split <;> rfl
  obtain ⟨previous, hcurrent, hmanifest⟩ : ∃ previous,
      currentVerifiedStore json.codec (attempt.published site).disk site.storeFile
        (if parsed.emptyLazy then none else some parsed.indexPath) = some previous ∧
      previous.map (·.manifest) = site.storeFile.rows.manifest := by
    rcases h.store with hmissing | ⟨store, parsed', generation', hheld⟩
    · refine ⟨none, by rw [hmissing]; rfl, ?_⟩
      rw [hmissing]
      simp [StoreFile.rows, Tables.manifest, Tables.empty]
    · exact ⟨some store, hallowed ▸ hheld.current h.index hnext attempt,
        hheld.opens.manifest.symm⟩
  obtain ⟨counts, hcounts⟩ := @snapshotTableCounts_isSome parsed generation
    (previous.map (·.manifest)) fun manifest hsome =>
      (hroom manifest (hmanifest.symm.trans hsome)).2
  obtain ⟨manifest, hplanned⟩ := @adapterStoreManifest_isSome parsed generation
    (attempt.call site).env counts (previous.map (·.manifest)) .created fun manifest hsome =>
      (hroom manifest (hmanifest.symm.trans hsome)).1
  exact ⟨⟨parsed, generation, manifest⟩, previous, counts, rfl, rfl, haccepted.parses,
    haccepted.checkpoint, haccepted.validated, hcurrent,
    verifyExpectedRevision_iff.mpr (hmanifest ▸ hexpected), hcounts, hplanned⟩

end Sound

/-! ## A save that is not cut -/

section Run

variable [DecidableEq Path] {json : JsonModule Text} {digest : Text → String}
  {around : Surroundings Text} {attempt : Attempt Text Path} {site : Site Text}
  {snapshot : Snapshot Text} {parsed : ParsedPayloads} {generation : GenerationCheckpoint}

/-- A prepared snapshot of a new generation is written and answered. -/
theorem writeContended_returns {env : Env} {storeFile : StoreFile Text}
    {expected : Option StoreRevision} {payloads : LegacyPayloads Text} {plan : SnapshotPlan}
    {previous : Option (VerifiedAdapterStore Text)} {counts : TableCounts}
    (h : Prepared json.codec env storeFile expected payloads .created plan previous counts)
    (hfresh : storeFile.Fresh) (hnew : ¬Reactivates json.codec storeFile payloads) :
    ∃ tables, SnapshotWritten json.codec env storeFile.rows payloads plan tables ∧
      openTables json.codec env.disk tables none none = some ⟨plan.manifest, payloads⟩ ∧
      writeContended json.codec env .none storeFile expected payloads =
        (.ok plan.manifest, .tables tables) := by
  obtain ⟨next, hnext, -⟩ := h.generations
  obtain ⟨tables, htables, hwritten⟩ :=
    @writeSnapshotTransaction_eq_some _ json.codec env _ _ _ _ h.parses hnext
  have hopen := (h.opens_iff hfresh hwritten).1 hnew
  have hplan := prepareSnapshot_eq_some.mpr ⟨_, _, h⟩
  have hinputs : snapshotInputs json.codec env payloads = some (plan.parsed, plan.generation) := by
    simp [snapshotInputs, h.parses, h.checkpoint, h.validated]
  refine ⟨tables, hwritten, hopen, ?_⟩
  simp [writeContended, hinputs, Contention.none, hplan, htables, openVerified,
    openVerifiedAtStoreFile, hopen]

theorem save_publishes {env : Env} {base : Base Path} {target : Path} {adapterName : Option String}
    {dir : Directory Text} {nextIndexPath indexPath : String} {written : Bool}
    {expected : Option StoreRevision} {manifest : Manifest} {storeFile : StoreFile Text}
    (hfresh : requireFreshBaseGeneration json.codec .none dir base target)
    (hwritten : snapshot.emptyLazy || written)
    (hexpected : (if isMissing dir.storeFile then some none
      else expectedRevision base.baseCommitToken) = some expected)
    (hpath : savedIndexPath snapshot nextIndexPath = indexPath)
    (hwrite : writeContended json.codec env .none dir.storeFile expected
      (snapshot.payloads json.codec (adapterName.getD base.adapterName) indexPath) =
        (.ok manifest, storeFile)) :
    Adapter.save json.codec env .none snapshot base target adapterName dir nextIndexPath written =
      publish base target adapterName indexPath manifest storeFile := by
  subst hpath
  unfold Adapter.save
  rw [if_pos hfresh, if_pos hwritten]
  dsimp only
  rw [hexpected]
  dsimp only
  rw [hwrite]

/-- A base that is fresh expects the revision of the root. -/
theorem Sound.expected (h : Sound json around site)
    (hfresh : requireFreshBaseGeneration json.codec .none (attempt.call site).dir attempt.base
      attempt.target) :
    attempt.expected site =
      some (site.storeFile.rows.manifest.map StoreRevision.fromManifest) := by
  unfold Attempt.expected
  rcases h.store with hmissing | ⟨store, parsed, generation, hheld⟩
  · rw [hmissing]
    simp [isMissing, StoreFile.rows, Tables.manifest, Tables.empty]
  · have hfile := hheld.file
    rcases holdsBase_of_fresh hfresh with hmissing | ⟨store', hopen, htoken⟩
    · rw [show site.storeFile = .missing from hmissing] at hfile
      cases hfile
    · obtain rfl := Option.some.inj (hheld.openVerified.symm.trans hopen)
      have hsome : isMissing site.storeFile = false := by rw [hfile]; rfl
      rw [hsome, htoken, hheld.opens.manifest]
      rfl

omit [DecidableEq Path] in
/-- The path of a new generation is not that of a retired one. -/
theorem Sound.not_reactivates (h : Sound json around site)
    (haccepted : Accepted json digest attempt site snapshot parsed generation)
    (hnext : site.nextGenerationId < 10 ^ 12) :
    ¬Reactivates json.codec site.storeFile (snapshot.payloads json.codec attempt.name
      (attempt.store.indexPath (attempt.call site))) := by
  rintro ⟨parsed', id, record, hparses, hlazy, hid, hrecord, -⟩
  obtain rfl := Option.some.inj (haccepted.parses.symm.trans hparses)
  obtain ⟨hempty, hpath⟩ := haccepted.fields
  rw [hpath, WorkingCopy.indexPath, ← hempty, hlazy, if_neg Bool.false_ne_true] at hid
  obtain rfl := Option.some.inj ((locate_nextIndexPath hnext).2.symm.trans hid)
  exact Nat.lt_irrefl _ (h.rows _ (Std.ExtTreeMap.mem_iff_isSome_getElem?.mpr
    (Option.isSome_of_eq_some hrecord)))

/-- What a save has done that is not cut. -/
structure Ran (json : JsonModule Text) (digest : Text → String) (attempt : Attempt Text Path)
    (site : Site Text) (plan : SnapshotPlan) (tables : Tables Text) (counts : TableCounts)
    (snapshot : Snapshot Text) (expected : Option StoreRevision)
    (previous : Option (VerifiedAdapterStore Text)) : Prop where
  returned : (attempt.run json digest site).1 = .returned
  file : (attempt.run json digest site).2.2 = .tables tables
  prepared : Prepared json.codec (attempt.call site).env site.storeFile expected
    (snapshot.payloads json.codec attempt.name (attempt.store.indexPath (attempt.call site)))
    .created plan previous counts
  written : SnapshotWritten json.codec (attempt.call site).env site.storeFile.rows
    (snapshot.payloads json.codec attempt.name (attempt.store.indexPath (attempt.call site)))
    plan tables

theorem Sound.run (h : Sound json around site) (hconsistent : attempt.store.validateConsistency)
    (haccepted : Accepted json digest attempt site snapshot parsed generation)
    (hnext : site.nextGenerationId < 10 ^ 12) (hroom : site.Room 1)
    (hfresh : requireFreshBaseGeneration json.codec .none (attempt.call site).dir attempt.base
      attempt.target) :
    ∃ plan tables counts expected previous, plan.parsed = parsed ∧ plan.generation = generation ∧
      Ran json digest attempt site plan tables counts snapshot expected previous := by
  obtain ⟨plan, previous, counts, hparsed, hgeneration, hprepared⟩ :=
    h.prepared haccepted hnext hroom rfl
  obtain ⟨tables, hwritten, hopen, hwrite⟩ :=
    writeContended_returns hprepared h.fresh (h.not_reactivates haccepted hnext)
  obtain ⟨parsed', generation', hopens⟩ := openTables_eq_some.mp hopen
  have hpath : ¬HasDot parsed'.indexPath := by
    have hparses : ParsedPayloads.parse json.codec _ = some parsed' := hopens.parses
    obtain rfl := Option.some.inj (haccepted.parses.symm.trans hparses)
    rw [haccepted.fields.2]
    exact WorkingCopy.not_hasDot_indexPath _ _
  have htoken : commitTokenFromManifest plan.manifest = some (.fromManifest plan.manifest) :=
    @commitToken_eq _ json.codec _ (.tables tables) none _ _ _ hopens hpath
  have hplace : savedIndexPath snapshot (generationIndexPath site.nextGenerationId) =
      attempt.store.indexPath (attempt.call site) := by
    obtain ⟨_, _, _, _, _, hparts⟩ := WorkingCopy.snapshot_eq_some haccepted.taken
    unfold savedIndexPath WorkingCopy.indexPath
    rw [hparts.emptyLazy]
    rfl
  have hexpected := h.expected hfresh
  have hrun : attempt.run json digest site = publish attempt.base attempt.target
      attempt.adapterName (attempt.store.indexPath (attempt.call site)) plan.manifest
      (.tables tables) := by
    unfold Attempt.run WorkingCopy.save
    rw [if_pos hconsistent, haccepted.taken]
    exact save_publishes hfresh (Bool.or_true _) hexpected hplace hwrite
  refine ⟨plan, tables, counts, _, previous, hparsed, hgeneration, ?_, ?_, hprepared, hwritten⟩
  · rw [hrun, publish, htoken]
  · rw [hrun]
    exact WorkingCopy.publish_file ..

end Run

end OrdinalDB.Adapter
