import OrdinalDB.Store.Ledger

/-!
# Recording states

One record of a collection: `recordPaths_returns` says when it succeeds, and
`Recorded` what it leaves. Entries and pins stay, the root stays open, and the
latest states are those before but for the recorded entries.
-/

namespace OrdinalDB.Store

open Durable
open Text (isWhitespace)

variable {Text : Type} {codec : JsonCodec Text} {env : Env} {root after : Root Text}
  {store result : VerifiedAdapterStore Text} {names : List String}
  {updates : List GenerationGcUpdate}

/-! ## One record -/

/-- The counters of a manifest leave room for commits that record some rows. -/
def Room (manifest : Manifest) (commits rows : Nat) : Prop :=
  commits = 0 ∨ manifest.commitSequence + commits < u64Bound ∧
    manifest.tableCounts.gcQueue + rows < u64Bound ∧
    manifest.tableCounts.auditLog + commits < u64Bound

instance (manifest : Manifest) (commits rows : Nat) : Decidable (Room manifest commits rows) :=
  inferInstanceAs (Decidable (_ ∨ _))

/-- The store after a record. -/
def VerifiedAdapterStore.recorded (store : VerifiedAdapterStore Text) (env : Env) (rows : Nat) :
    VerifiedAdapterStore Text :=
  { store with
    manifest := updateGcManifestCounts store.manifest (store.manifest.commitSequence + 1)
      (store.manifest.tableCounts.gcQueue + rows) (store.manifest.tableCounts.auditLog + 1)
      (env.now 0) }

def recordTables (env : Env) (store : VerifiedAdapterStore Text)
    (updates : List GenerationGcUpdate) (tables : Tables Text) : Tables Text :=
  { tables with
    metaRows := tables.metaRows.insert "manifest" (some (store.recorded env updates.length).manifest)
    gcQueue := tables.gcQueue.insertMany
      (gcRows env store.manifest.tableCounts.gcQueue updates)
    auditLog := tables.auditLog.insert (store.manifest.commitSequence + 1)
      (some (.generationGcRecorded (store.manifest.commitSequence + 1) updates.length
        (env.now (updates.length + 1)))) }

/-- The root after a record. -/
def Root.record (root : Root Text) (env : Env) (store : VerifiedAdapterStore Text)
    (updates : List GenerationGcUpdate) : Root Text :=
  { root with storeFile := .tables (recordTables env store updates root.storeFile.rows) }

theorem Root.Opened.current (h : root.Opened codec store) :
    (currentVerifiedStore codec root.disk root.storeFile none).join = some store := by
  unfold Root.Opened openVerified at h
  unfold currentVerifiedStore
  cases hfile : root.storeFile with
  | missing =>
    rw [hfile] at h
    cases h
  | blank =>
    rw [hfile] at h
    cases h
  | tables tables =>
    rw [hfile] at h
    rw [h]
    rfl

theorem gcTransaction_of_opened (h : root.Opened codec store) :
    gcTransaction codec (env.on root) root.storeFile (some (.fromManifest store.manifest)) updates =
      if updates.all validateGcUpdate ∧ Room store.manifest 1 updates.length
      then some (recordTables env store updates root.storeFile.rows) else none := by
  have hcurrent : (currentVerifiedStore codec (env.on root).disk root.storeFile none).join =
      some store := h.current
  simp only [gcTransaction, hcurrent, Option.bind_eq_bind, Option.bind_some, checkedAdd,
    verifyExpectedRevision, Room, Nat.one_ne_zero, false_or, Option.pure_def]
  by_cases hvalid : updates.all validateGcUpdate <;>
    by_cases hsequence : store.manifest.commitSequence + 1 < u64Bound <;>
    by_cases hgc : store.manifest.tableCounts.gcQueue + updates.length < u64Bound <;>
    by_cases haudit : store.manifest.tableCounts.auditLog + 1 < u64Bound <;>
    simp [hvalid, hsequence, hgc, haudit, guard]
  rfl

variable (env) in
/-- A record finds the root open, and writes it again. -/
theorem gcRecorded_record (h : root.Opened codec store) (hvalid : updates.all validateGcUpdate) :
    ∃ parsed generation, GcRecorded codec (env.on root) root.storeFile
      (some (.fromManifest store.manifest)) updates
      (recordTables env store updates root.storeFile.rows) store parsed generation := by
  obtain ⟨hfile, parsed, generation, hopens⟩ := opened_iff.mp h
  exact ⟨parsed, generation, hvalid, hfile, hopens, by simp [verifyExpectedRevision], rfl⟩

variable (env) in
theorem Root.Opened.record (h : root.Opened codec store) (hledger : root.Ledger)
    (hvalid : updates.all validateGcUpdate) :
    (root.record env store updates).Opened codec (store.recorded env updates.length) := by
  obtain ⟨parsed, generation, hrecorded⟩ := gcRecorded_record env h hvalid
  have hcounts := hrecorded.counts hledger.fresh
  have hopens := hrecorded.opens_after hcounts
  rw [hcounts] at hopens
  exact opened_iff.mpr ⟨rfl, parsed, generation, hopens⟩

theorem recordGenerationGc_returns (hledger : root.Ledger)
    (hsame : ∀ store', root.Opened codec store' → store' = store) (hwrites : updates ≠ []) :
    Returns (recordGenerationGcWithExistingLock codec env (some (.fromManifest store.manifest))
        updates) root result after ↔
      root.Opened codec store ∧ updates.all validateGcUpdate ∧
        Room store.manifest 1 updates.length ∧ result = store.recorded env updates.length ∧
        after = root.record env store updates := by
  rw [recordGenerationGcWithExistingLock, returns_step, Prod.mk.injEq, recordGenerationGcInner,
    if_neg hwrites]
  constructor
  · rintro ⟨hanswer, hafter⟩
    split at hanswer
    next => cases hanswer
    next tables htables =>
      rw [htables] at hafter
      obtain ⟨store', _, _, hrecorded⟩ := gcTransaction_eq_some htables
      have hopened : root.Opened codec store' :=
        opened_iff.mpr ⟨hrecorded.file, _, _, hrecorded.opens⟩
      obtain rfl := hsame store' hopened
      rw [gcTransaction_of_opened hopened, Option.ite_none_right_eq_some] at htables
      obtain ⟨⟨hvalid, hroom⟩, htables⟩ := htables
      obtain rfl := Option.some.inj htables
      obtain rfl : root.record env store' updates = after := hafter
      have hagain := hopened.record env hledger hvalid
      exact ⟨hopened, hvalid, hroom, Option.some.inj (hanswer.symm.trans hagain), rfl⟩
  · rintro ⟨hopened, hvalid, hroom, rfl, rfl⟩
    rw [gcTransaction_of_opened hopened, if_pos ⟨hvalid, hroom⟩]
    exact ⟨hopened.record env hledger hvalid, rfl⟩

/-! ## Updates of entries -/

def gcUpdateOf (state reason name : String) : GenerationGcUpdate :=
  ⟨(generationIdFromGcPath (entryPath name)).getD none, entryPath name, state, reason⟩

theorem gcUpdates_eq_some (hnames : ∀ name ∈ names, EntryName name) {state reason : String} :
    (names.map entryPath).mapM (gcUpdateForPath state reason) = some updates ↔
      (∀ name ∈ names, '\\' ∉ name.toList) ∧ updates = names.map (gcUpdateOf state reason) := by
  have hupdate : (∀ name ∈ names, '\\' ∉ name.toList) →
      (names.map entryPath).mapM (gcUpdateForPath state reason) =
        some (names.map (gcUpdateOf state reason)) := by
    intro hback
    rw [Table.mapM_eq_some, List.map_map, List.map_map]
    refine List.map_congr_left fun name hname => ?_
    obtain ⟨id, hid⟩ := Option.isSome_iff_exists.mp
      ((generationIdFromGcPath_isSome (hnames name hname)).mpr (hback name hname))
    simp [gcUpdateForPath, gcUpdateOf, hid]
  constructor
  · intro h
    have hback : ∀ name ∈ names, '\\' ∉ name.toList := by
      intro name hname
      have hsome := Table.isSome_of_mapM h _ (List.mem_map_of_mem hname)
      refine (generationIdFromGcPath_isSome (hnames name hname)).mp ?_
      simpa only [gcUpdateForPath, Option.bind_eq_bind, Option.pure_def, isSome_bind_some]
        using hsome
    exact ⟨hback, Option.some.inj (h.symm.trans (hupdate hback))⟩
  · rintro ⟨hback, rfl⟩
    exact hupdate hback

/-- What a collection may record. -/
structure Recordable (state reason : String) : Prop where
  state : isValidGenerationLifecycleState state
  reason : !reason.toList.all isWhitespace

theorem validateGcUpdate_gcUpdateOf {name state reason : String} (h : Recordable state reason)
    (hname : EntryName name) (hback : '\\' ∉ name.toList) :
    validateGcUpdate (gcUpdateOf state reason name) := by
  simp [validateGcUpdate, gcUpdateOf, (validateRelativePath_entryPath hname).mpr hback,
    entryPath_ne_indexDir, h.state, h.reason]

theorem recordPaths_returns {state reason : String} (hrecordable : Recordable state reason)
    (hledger : root.Ledger) (hsame : ∀ store', root.Opened codec store' → store' = store)
    (hnames : ∀ name ∈ names, EntryName name) (hwrites : names ≠ []) :
    Returns (recordPaths codec env store state reason (names.map entryPath)) root result after ↔
      root.Opened codec store ∧ (∀ name ∈ names, '\\' ∉ name.toList) ∧
        Room store.manifest 1 names.length ∧ result = store.recorded env names.length ∧
        after = root.record env store (names.map (gcUpdateOf state reason)) := by
  have hnonempty : names.map (gcUpdateOf state reason) ≠ [] := by simpa using hwrites
  have hlength : (names.map (gcUpdateOf state reason)).length = names.length := List.length_map ..
  simp only [recordPaths, returns_bind, returns_read, gcUpdates_eq_some hnames]
  constructor
  · rintro ⟨_, _, ⟨⟨hback, rfl⟩, rfl⟩, hrecord⟩
    obtain ⟨hopened, -, hroom, hresult, hafter⟩ :=
      (recordGenerationGc_returns hledger hsame hnonempty).mp hrecord
    rw [hlength] at hroom hresult
    exact ⟨hopened, hback, hroom, hresult, hafter⟩
  · rintro ⟨hopened, hback, hroom, hresult, hafter⟩
    refine ⟨_, root, ⟨⟨hback, rfl⟩, rfl⟩, (recordGenerationGc_returns hledger hsame hnonempty).mpr
      ⟨hopened, ?_, by rwa [hlength], by rwa [hlength], hafter⟩⟩
    rw [List.all_eq_true]
    rintro update hupdate
    obtain ⟨name, hname, rfl⟩ := List.mem_map.mp hupdate
    exact validateGcUpdate_gcUpdateOf hrecordable (hnames name hname) (hback name hname)

/-! ## What a record leaves -/

/-- The latest states after more events. -/
theorem events_append {tables : Tables Text} {manifest : Manifest} (h : FreshKeys tables manifest) :
    (tables.gcQueue.insertMany (gcRows env manifest.tableCounts.gcQueue updates)).toList =
      tables.gcQueue.toList ++ gcRows env manifest.tableCounts.gcQueue updates := by
  have hkeys := keys_gcRows env manifest.tableCounts.gcQueue updates
  refine Table.toList_insertMany ?_ fun old hold row hrow => ?_
  · have hsorted : ((gcRows env manifest.tableCounts.gcQueue updates).map Prod.fst).Pairwise
        (· < ·) := by
      rw [hkeys]
      exact List.pairwise_lt_range'
    exact (List.pairwise_map.mp hsorted).imp fun hlt => compare_lt_iff_lt.mpr hlt
  · have hmem : old.1 ∈ tables.gcQueue :=
      Std.ExtTreeMap.mem_keys.mp (by
        rw [← Std.ExtTreeMap.map_fst_toList_eq_keys]
        exact List.mem_map_of_mem hold)
    have hnew := List.mem_map_of_mem (f := Prod.fst) hrow
    rw [hkeys, List.mem_range'_1] at hnew
    exact compare_lt_iff_lt.mpr ((h.gc _ hmem).trans_lt hnew.1)

theorem states_gcRows (env : Env) (count : Nat) (state reason : String) (names : List String) :
    ((gcRows env count (names.map (gcUpdateOf state reason))).filterMap Prod.snd).map
        (fun event => (event.path, event.state)) =
      names.map fun name => (entryPath name, state) := by
  have hrows : (gcRows env count (names.map (gcUpdateOf state reason))).filterMap Prod.snd =
      (names.map (gcUpdateOf state reason)).zipIdx.map fun entry =>
        gcUpdateJson entry.1 (env.now (entry.2 + 1)) := by
    unfold gcRows
    rw [List.filterMap_map]
    exact List.filterMap_eq_map_iff_forall_eq_some.mpr fun _ _ => rfl
  have hpair : ((fun event : GcRow => (event.path, event.state)) ∘
      fun entry : GenerationGcUpdate × Nat => gcUpdateJson entry.1 (env.now (entry.2 + 1))) =
      (fun update => (update.path, update.state)) ∘ Prod.fst := rfl
  rw [hrows, List.map_map, hpair, ← List.map_map, List.zipIdx_map_fst, List.map_map]
  rfl

/-- A root with one more state for some entries. -/
structure Recorded (codec : JsonCodec Text) (root : Root Text)
    (store : VerifiedAdapterStore Text) (state : String) (names : List String) (after : Root Text)
    (result : VerifiedAdapterStore Text) : Prop where
  disk : after.disk = root.disk
  pins : after.pins = root.pins
  opened : after.Opened codec result
  ledger : after.Ledger
  states : ∀ path, after.states[path]? =
    if path ∈ names.map entryPath then some state else root.states[path]?
  activePath : result.manifest.activeGenerationPath = store.manifest.activeGenerationPath
  sequence : result.manifest.commitSequence = store.manifest.commitSequence + 1
  gcCount : result.manifest.tableCounts.gcQueue =
    store.manifest.tableCounts.gcQueue + names.length
  auditCount : result.manifest.tableCounts.auditLog = store.manifest.tableCounts.auditLog + 1

variable (env) in
theorem recorded_record {state reason : String} (hrecordable : Recordable state reason)
    (hledger : root.Ledger) (hopened : root.Opened codec store)
    (hnames : ∀ name ∈ names, EntryName name) (hback : ∀ name ∈ names, '\\' ∉ name.toList) :
    Recorded codec root store state names
      (root.record env store (names.map (gcUpdateOf state reason)))
      (store.recorded env names.length) := by
  have hvalid : (names.map (gcUpdateOf state reason)).all validateGcUpdate := by
    rw [List.all_eq_true]
    rintro update hupdate
    obtain ⟨name, hname, rfl⟩ := List.mem_map.mp hupdate
    exact validateGcUpdate_gcUpdateOf hrecordable (hnames name hname) (hback name hname)
  have hagain := hopened.record env hledger hvalid
  rw [List.length_map] at hagain
  obtain ⟨hfile, _, _, hopens⟩ := opened_iff.mp hopened
  have hfresh := hledger.fresh
  rw [hfile] at hfresh
  obtain ⟨manifest, hkeys⟩ := hfresh
  obtain rfl := Option.some.inj (hkeys.row.symm.trans hopens.manifest)
  -- the new rows are numbered from the count of the manifest on
  have hrows : (gcRows env store.manifest.tableCounts.gcQueue
      (names.map (gcUpdateOf state reason))).map Prod.fst =
      List.range' (store.manifest.tableCounts.gcQueue + 1) names.length := by
    rw [keys_gcRows, List.length_map]
  have hledger' : (root.record env store (names.map (gcUpdateOf state reason))).Ledger := by
    constructor
    · refine ⟨(store.recorded env names.length).manifest, ?_, fun key hkey => ?_, fun key hkey => ?_⟩
      · simp [recordTables, Tables.manifest]
      · rcases Table.mem_insert_iff.mp hkey with rfl | hold
        · exact Nat.le_refl _
        · exact (hkeys.audit key hold).trans (Nat.le_succ _)
      · change key ∈ root.storeFile.rows.gcQueue.insertMany _ at hkey
        rw [Std.ExtTreeMap.mem_insertMany_list, List.contains_iff_mem, hrows,
          List.mem_range'_1] at hkey
        show key ≤ store.manifest.tableCounts.gcQueue + names.length
        rcases hkey with hold | hnew
        · exact (hkeys.gc key hold).trans (Nat.le_add_right _ _)
        · omega
    · intro key row hrow
      change (root.storeFile.rows.gcQueue.insertMany _)[key]? = some row at hrow
      by_cases hnew : key ∈ (gcRows env store.manifest.tableCounts.gcQueue
          (names.map (gcUpdateOf state reason))).map Prod.fst
      · obtain ⟨entry, hentry, rfl⟩ := List.mem_map.mp hnew
        have hnodup : ((gcRows env store.manifest.tableCounts.gcQueue
            (names.map (gcUpdateOf state reason))).map Prod.fst).Nodup := by
          rw [hrows]
          exact List.nodup_range'
        rw [Table.insertMany_of_nodup hnodup hentry] at hrow
        obtain rfl := Option.some.inj hrow
        obtain ⟨⟨update, offset⟩, hupdate, rfl⟩ := List.mem_map.mp hentry
        obtain ⟨name, hname, rfl⟩ := List.mem_map.mp (List.fst_mem_of_mem_zipIdx hupdate)
        exact ⟨_, rfl, validateGcUpdate_gcUpdateOf hrecordable (hnames name hname)
          (hback name hname), name, hnames name hname, rfl⟩
      · rw [Table.insertMany_of_not_mem hnew] at hrow
        exact hledger.events key row hrow
  refine ⟨rfl, rfl, hagain, hledger', fun path => ?_, rfl, rfl, rfl, rfl⟩
  have hlist : (root.record env store (names.map (gcUpdateOf state reason))).storeFile.rows.gcQueue =
      root.storeFile.rows.gcQueue.insertMany (gcRows env store.manifest.tableCounts.gcQueue
        (names.map (gcUpdateOf state reason))) := rfl
  -- the states are those before, overwritten at the recorded paths
  rw [(hledger'.read rfl).2, (hledger.read hfile).2, hlist, events_append hkeys,
    List.filterMap_append, List.map_append, Std.ExtTreeMap.insertMany_append, states_gcRows]
  split
  next hmem =>
    refine Table.insertMany_of_agree (fun row hrow _ => ?_) (by rwa [List.map_map])
    obtain ⟨name, -, rfl⟩ := List.mem_map.mp hrow
    rfl
  next hmem => exact Table.insertMany_of_not_mem (by rwa [List.map_map])

/-- A crash leaves a record out or in. -/
theorem cut_recordPaths {state reason : String} (hrecordable : Recordable state reason)
    (hledger : root.Ledger) (hsame : ∀ store', root.Opened codec store' → store' = store)
    (hnames : ∀ name ∈ names, EntryName name) (hwrites : names ≠ [])
    (hcut : Cut (recordPaths codec env store state reason (names.map entryPath)) root after) :
    after = root ∨ ∃ result, Recorded codec root store state names after result := by
  rcases cut_bind hcut with hread | ⟨updates, _, hread, hrecord⟩
  · exact .inl (cut_read.mp hread)
  obtain ⟨hupdates, rfl⟩ := returns_read.mp hread
  obtain ⟨hback, rfl⟩ := (gcUpdates_eq_some hnames).mp hupdates
  have hnonempty : names.map (gcUpdateOf state reason) ≠ [] := by simpa using hwrites
  rcases cut_step.mp hrecord with hbefore | hafter
  · exact .inl hbefore
  simp only [recordGenerationGcInner, if_neg hnonempty] at hafter
  split at hafter
  next => exact .inl hafter
  next tables htables =>
    obtain ⟨store', _, _, hrecorded⟩ := gcTransaction_eq_some htables
    have hopened : root.Opened codec store' :=
      opened_iff.mpr ⟨hrecorded.file, _, _, hrecorded.opens⟩
    obtain rfl := hsame store' hopened
    rw [gcTransaction_of_opened hopened, Option.ite_none_right_eq_some] at htables
    obtain rfl := Option.some.inj htables.2
    obtain rfl : after = root.record env store' (names.map (gcUpdateOf state reason)) := hafter
    exact .inr ⟨_, recorded_record env hrecordable hledger hopened hnames hback⟩

theorem recordPaths_recorded {state reason : String} (hrecordable : Recordable state reason)
    (hledger : root.Ledger) (hsame : ∀ store', root.Opened codec store' → store' = store)
    (hnames : ∀ name ∈ names, EntryName name) (hwrites : names ≠ [])
    (h : Returns (recordPaths codec env store state reason (names.map entryPath)) root result after) :
    Recorded codec root store state names after result := by
  obtain ⟨hopened, hback, -, rfl, rfl⟩ :=
    (recordPaths_returns hrecordable hledger hsame hnames hwrites).mp h
  exact recorded_record env hrecordable hledger hopened hnames hback

end OrdinalDB.Store
