import OrdinalDB.Store.Records

/-!
# A whole collection

`Root.Clear` is the condition under which a collection goes through
(`gc_succeeds`), and `Collected` is what it leaves and reports when it does
(`gc_collects`): the entries of interrupted deletions and the doomed ones are
gone, and nothing else has changed.
-/

namespace OrdinalDB.Store

open Durable

variable {Text : Type} {codec : JsonCodec Text} {env : Env} {envs : Nat → Env}
  {root after : Root Text} {store result : VerifiedAdapterStore Text} {names : List String}
  {active : Option String} {retain : Nat} {name : String}

theorem Root.Ledger.of_storeFile (h : root.Ledger) (hfile : after.storeFile = root.storeFile) :
    after.Ledger :=
  ⟨hfile ▸ h.fresh, hfile ▸ h.events⟩

theorem states_of_storeFile (hfile : after.storeFile = root.storeFile) :
    after.states = root.states := by
  rw [Root.states, Root.states, hfile]

theorem Root.Opened.file (h : root.Opened codec store) :
    root.storeFile = .tables root.storeFile.rows := (opened_iff.mp h).1

/-- The root stays open exactly when the entry in use stays. -/
theorem opened_removeAll_iff (h : root.Opened codec store) :
    (root.removeAll names).Opened codec store ↔ ∀ name ∈ names, ¬store.Uses name := by
  constructor
  · intro hopened name hname huses
    obtain ⟨bundle, hentry⟩ := hopened.uses huses
    rw [entry_removeAll, if_pos hname] at hentry
    cases hentry
  · intro hkept
    refine h.shrink (shrinks_removeAll root names) storeFile_removeAll fun name huses => ?_
    rw [entry_removeAll, if_neg fun hname => hkept name hname huses]

theorem recordable_recovery : Recordable generationStateDeleted "adapter_gc_recovery" :=
  ⟨by decide, by decide⟩

theorem recordable_reclaimable : Recordable generationStateReclaimable "adapter_gc" :=
  ⟨by decide, by decide⟩

theorem recordable_deleting : Recordable generationStateDeleting "adapter_gc" :=
  ⟨by decide, by decide⟩

theorem recordable_deleted : Recordable generationStateDeleted "adapter_gc" :=
  ⟨by decide, by decide⟩

/-! ## Recovery -/

/-- The entries of interrupted deletions that a recovery leaves gone. -/
def Root.recovered (root : Root Text) (activeGenerationPath : Option String) : List String :=
  (root.interrupted activeGenerationPath).filter root.gone

/-- A root and its store behind the recovery. -/
def Root.recover (root : Root Text) (env : Env) (store : VerifiedAdapterStore Text)
    (activeGenerationPath : Option String) : Root Text × VerifiedAdapterStore Text :=
  let gone := root.recovered activeGenerationPath
  if gone = [] then (root, store)
  else
    ((root.removeAll gone).record env store
        (gone.map (gcUpdateOf generationStateDeleted "adapter_gc_recovery")),
      store.recorded env gone.length)

/-- The number of commits of a recovery. -/
def recoveryCommits (gone : List String) : Nat := if gone = [] then 0 else 1

/-- What a recovery, or the part behind it, leaves: some entries are gone and recorded so. -/
structure Swept (codec : JsonCodec Text) (root : Root Text) (store : VerifiedAdapterStore Text)
    (names : List String) (after : Root Text) (result : VerifiedAdapterStore Text) : Prop where
  index : after.disk.index = root.disk.index
  pins : after.pins = root.pins
  entries : ∀ name, after.entry name = if name ∈ names then none else root.entry name
  states : ∀ path, after.states[path]? =
    if path ∈ names.map entryPath then some generationStateDeleted else root.states[path]?
  opened : after.Opened codec result
  ledger : after.Ledger
  activePath : result.manifest.activeGenerationPath = store.manifest.activeGenerationPath

theorem index_removeAll : (root.removeAll names).disk.index = root.disk.index :=
  (shrinks_removeAll root names).index

section Recovery

variable (hledger : root.Ledger) (hopened : root.Opened codec store)

include hledger hopened

theorem recovered_name (hmem : name ∈ root.recovered active) :
    EntryName name ∧ '\\' ∉ name.toList :=
  hledger.interrupted_name hopened.file (List.mem_filter.mp hmem).1

theorem recover_returns {current : VerifiedAdapterStore Text} {paths : List String} :
    Returns (recoverInterruptedAdapterGc codec env active store) root (current, paths) after ↔
      (∀ name ∈ root.interrupted active, root.Recoverable name) ∧
        (∀ name ∈ root.recovered active, ¬store.Uses name) ∧
        Room store.manifest (recoveryCommits (root.recovered active))
          (root.recovered active).length ∧
        paths = (root.recovered active).map entryPath ∧
        (after, current) = root.recover env store active := by
  have hread := (hledger.read hopened.file).1
  have hloop := fun paths after => @recoverPaths_returns _ root after (root.interrupted active)
    (fun name hname => hledger.interrupted_name hopened.file hname)
    (hledger.interrupted_nodup hopened.file) paths
  have hnames : ∀ name ∈ root.recovered active, EntryName name :=
    fun name hmem => (recovered_name hledger hopened hmem).1
  have hsame : ∀ store', (root.removeAll (root.recovered active)).Opened codec store' →
      store' = store := fun store' h => hopened.unique h storeFile_removeAll
  have hswept : (root.removeAll (root.recovered active)).Ledger :=
    hledger.of_storeFile storeFile_removeAll
  simp only [recoverInterruptedAdapterGc, returns_bind, returns_read, hread, Option.some_inj]
  constructor
  · rintro ⟨_, _, ⟨rfl, rfl⟩, paths', middle, hpaths, hrest⟩
    rw [hledger.interrupted_paths hopened.file] at hpaths
    obtain ⟨hrecoverable, rfl, rfl⟩ := (hloop _ _).mp hpaths
    change Returns (if (root.recovered active).map entryPath = [] then _ else _)
      (root.removeAll (root.recovered active)) (current, paths) after at hrest
    -- an empty list of recovered paths is not recorded
    split at hrest
    next hnone =>
      have hnone : root.recovered active = [] := List.map_eq_nil_iff.mp hnone
      obtain ⟨hpair, rfl⟩ := returns_pure.mp hrest
      obtain ⟨rfl, rfl⟩ := Prod.mk.inj hpair
      refine ⟨hrecoverable, by simp [hnone], .inl (by simp [recoveryCommits, hnone]), rfl, ?_⟩
      simp [Root.recover, hnone, Root.removeAll]
    next hsome =>
      have hsome : root.recovered active ≠ [] := fun h => hsome (by rw [h]; rfl)
      obtain ⟨recovered, _, hrecord, hpure⟩ := returns_bind.mp hrest
      obtain ⟨hpair, rfl⟩ := returns_pure.mp hpure
      obtain ⟨rfl, rfl⟩ := Prod.mk.inj hpair
      obtain ⟨hopened', -, hroom, rfl, rfl⟩ :=
        (recordPaths_returns recordable_recovery hswept hsame hnames hsome).mp hrecord
      refine ⟨hrecoverable, (opened_removeAll_iff hopened).mp hopened', ?_, rfl, ?_⟩
      · rw [recoveryCommits, if_neg hsome]
        exact hroom
      · simp [Root.recover, hsome]
  · rintro ⟨hrecoverable, hkept, hroom, rfl, hafter⟩
    refine ⟨_, root, ⟨rfl, rfl⟩, (root.recovered active).map entryPath,
      root.removeAll (root.recovered active), ?_, ?_⟩
    · rw [hledger.interrupted_paths hopened.file]
      exact (hloop _ _).mpr ⟨hrecoverable, rfl, rfl⟩
    · by_cases hnone : root.recovered active = []
      · simp only [Root.recover, hnone, if_true, Prod.mk.injEq] at hafter
        obtain ⟨rfl, rfl⟩ := hafter
        simp only [hnone, List.map_nil, if_true]
        exact returns_pure.mpr ⟨rfl, rfl⟩
      · simp only [Root.recover, hnone, if_false, Prod.mk.injEq] at hafter
        obtain ⟨rfl, rfl⟩ := hafter
        rw [recoveryCommits, if_neg hnone] at hroom
        rw [if_neg (by simpa using hnone)]
        exact returns_bind.mpr ⟨_, _, (recordPaths_returns recordable_recovery hswept hsame hnames
          hnone).mpr ⟨(opened_removeAll_iff hopened).mpr hkept,
            fun name hmem => (recovered_name hledger hopened hmem).2, hroom, rfl, rfl⟩,
          returns_pure.mpr ⟨rfl, rfl⟩⟩

variable (env) in
theorem swept_recover (hkept : ∀ name ∈ root.recovered active, ¬store.Uses name) :
    Swept codec root store (root.recovered active) (root.recover env store active).1
        (root.recover env store active).2 ∧
      ∀ commits rows, Room (root.recover env store active).2.manifest commits rows ↔
        commits = 0 ∨ Room store.manifest (recoveryCommits (root.recovered active) + commits)
          ((root.recovered active).length + rows) := by
  have hnames : ∀ name ∈ root.recovered active, EntryName name :=
    fun name hmem => (recovered_name hledger hopened hmem).1
  have hback : ∀ name ∈ root.recovered active, '\\' ∉ name.toList :=
    fun name hmem => (recovered_name hledger hopened hmem).2
  unfold Root.recover recoveryCommits
  by_cases hnone : root.recovered active = []
  · simp only [hnone, if_true]
    refine ⟨⟨rfl, rfl, by simp, by simp, hopened, hledger, rfl⟩, fun commits rows => ?_⟩
    simp [Room]
  · simp only [hnone, if_false]
    have hrecorded := recorded_record env recordable_recovery
      (hledger.of_storeFile storeFile_removeAll) ((opened_removeAll_iff hopened).mpr hkept)
      hnames hback
    refine ⟨⟨index_removeAll, pins_removeAll, fun name => entry_removeAll, fun path => ?_,
      hrecorded.opened, hrecorded.ledger, rfl⟩, fun commits rows => ?_⟩
    · rw [hrecorded.states, states_of_storeFile storeFile_removeAll]
    · simp only [Room, VerifiedAdapterStore.recorded, updateGcManifestCounts]
      omega

end Recovery

/-! ## Reclaiming -/

/-- A root and its store behind the two records before the deletions. -/
def Root.announce (root : Root Text) (envs : Nat → Env) (store : VerifiedAdapterStore Text)
    (names : List String) : Root Text × VerifiedAdapterStore Text :=
  let queued := root.record (envs 1) store
    (names.map (gcUpdateOf generationStateReclaimable "adapter_gc"))
  let queuedStore := store.recorded (envs 1) names.length
  (queued.record (envs 2) queuedStore
      (names.map (gcUpdateOf generationStateDeleting "adapter_gc")),
    queuedStore.recorded (envs 2) names.length)

/-- A root and its store behind the deletions. -/
def Root.reclaim (root : Root Text) (envs : Nat → Env) (store : VerifiedAdapterStore Text)
    (gone names : List String) : Root Text × VerifiedAdapterStore Text :=
  let announced := root.announce envs store names
  ((announced.1.removeAll names).record (envs 3) announced.2
      ((gone ++ names).map (gcUpdateOf generationStateDeleted "adapter_gc")),
    announced.2.recorded (envs 3) (gone ++ names).length)

section Reclaim

variable {gone : List String} (hledger : root.Ledger) (hopened : root.Opened codec store)
  (hnames : ∀ name ∈ names, EntryName name) (hback : ∀ name ∈ names, '\\' ∉ name.toList)

include hledger hopened hnames hback

variable (envs) in
/-- Before its deletions a collection has recorded them. -/
theorem recorded_announce : ∃ queued queuedStore,
    Recorded codec root store generationStateReclaimable names queued queuedStore ∧
      Recorded codec queued queuedStore generationStateDeleting names
        (root.announce envs store names).1 (root.announce envs store names).2 := by
  have hqueued := recorded_record (envs 1) recordable_reclaimable hledger hopened hnames hback
  exact ⟨_, _, hqueued,
    recorded_record (envs 2) recordable_deleting hqueued.ledger hqueued.opened hnames hback⟩

variable (envs) in
theorem announced_removeAll :
    ((root.announce envs store names).1.removeAll names).Ledger ∧
      (((root.announce envs store names).1.removeAll names).Opened codec
          (root.announce envs store names).2 ↔ ∀ name ∈ names, ¬store.Uses name) ∧
      ∀ store', ((root.announce envs store names).1.removeAll names).Opened codec store' →
        store' = (root.announce envs store names).2 := by
  obtain ⟨_, _, -, hdeleting⟩ := recorded_announce envs hledger hopened hnames hback
  exact ⟨hdeleting.ledger.of_storeFile storeFile_removeAll, opened_removeAll_iff hdeleting.opened,
    fun store' h => hdeleting.opened.unique h storeFile_removeAll⟩

variable (envs) in
theorem swept_reclaim (hgone : ∀ name ∈ gone, EntryName name ∧ '\\' ∉ name.toList)
    (hkept : ∀ name ∈ names, ¬store.Uses name) (hthere : ∀ name ∈ gone, root.entry name = none) :
    Swept codec root store (gone ++ names) (root.reclaim envs store gone names).1
      (root.reclaim envs store gone names).2 := by
  obtain ⟨queued, _, hqueued, hdeleting⟩ :=
    recorded_announce envs hledger hopened hnames hback
  obtain ⟨hledger', hopened', -⟩ :=
    announced_removeAll envs hledger hopened hnames hback
  have hall : ∀ name ∈ gone ++ names, EntryName name ∧ '\\' ∉ name.toList := by
    intro name hname
    rcases List.mem_append.mp hname with hmem | hmem
    · exact hgone name hmem
    · exact ⟨hnames name hmem, hback name hmem⟩
  have hrecorded := recorded_record (envs 3) recordable_deleted hledger'
    (hopened'.mpr hkept) (fun name h => (hall name h).1) (fun name h => (hall name h).2)
  have hentry : ∀ name, (root.announce envs store names).1.entry name = root.entry name := by
    intro name
    rw [Root.entry, Root.entry, hdeleting.disk, hqueued.disk]
  refine ⟨index_removeAll, pins_removeAll, fun name => ?_, fun path => ?_,
    hrecorded.opened, hrecorded.ledger, rfl⟩
  · refine entry_removeAll.trans ?_
    rw [hentry]
    by_cases hmem : name ∈ names
    · simp [hmem]
    · by_cases hgone' : name ∈ gone
      · simp [hmem, hgone', hthere name hgone']
      · simp [hmem, hgone']
  · rw [Root.reclaim, hrecorded.states, states_of_storeFile storeFile_removeAll, hdeleting.states,
      hqueued.states, List.map_append]
    by_cases hmem : path ∈ names.map entryPath <;> simp [hmem]

theorem reclaim_returns (hnodup : names.Nodup) (hwrites : names ≠ [])
    (hgone : ∀ name ∈ gone, EntryName name ∧ '\\' ∉ name.toList)
    {deleted : List String} :
    Returns (reclaimGenerations codec envs store (names.map entryPath) (gone.map entryPath)) root
        (result, deleted) after ↔
      (∀ name ∈ names, root.Deletable name) ∧ (∀ name ∈ names, ¬store.Uses name) ∧
        Room store.manifest 3 (gone.length + 3 * names.length) ∧
        deleted = (gone ++ names).map entryPath ∧
        (after, result) = root.reclaim envs store gone names := by
  have hqueued := recorded_record (envs 1) recordable_reclaimable hledger hopened hnames hback
  obtain ⟨hledger', hopened', hsame'⟩ :=
    announced_removeAll envs hledger hopened hnames hback
  have hall : ∀ name ∈ gone ++ names, EntryName name ∧ '\\' ∉ name.toList := by
    intro name hname
    rcases List.mem_append.mp hname with hmem | hmem
    · exact hgone name hmem
    · exact ⟨hnames name hmem, hback name hmem⟩
  have hfinal : gone ++ names ≠ [] := fun h => hwrites (List.append_eq_nil_iff.mp h).2
  have hrooms : Room store.manifest 3 (gone.length + 3 * names.length) ↔
      Room store.manifest 1 names.length ∧
        Room (store.recorded (envs 1) names.length).manifest 1 names.length ∧
        Room (root.announce envs store names).2.manifest 1 (gone ++ names).length := by
    simp only [Room, Root.announce, VerifiedAdapterStore.recorded, updateGcManifestCounts,
      List.length_append]
    omega
  have hfirst := fun result after => @recordPaths_returns _ codec (envs 1) root after store result
    names _ _ recordable_reclaimable hledger (fun _ h => hopened.unique h rfl) hnames hwrites
  have hsecond := fun result after => @recordPaths_returns _ codec (envs 2) _ after _ result names
    _ _ recordable_deleting hqueued.ledger (fun _ h => hqueued.opened.unique h rfl) hnames hwrites
  have hdelete := fun after => @deleteAll_returns _ (root.announce envs store names).1 after names
    hnames hnodup
  have hthird := fun result after => @recordPaths_returns _ codec (envs 3) _ after _ result
    (gone ++ names) _ _ recordable_deleted hledger' hsame' (fun name h => (hall name h).1) hfinal
  simp only [reclaimGenerations, returns_bind, hrooms, ← List.map_append]
  constructor
  · rintro ⟨_, _, hqueue, _, _, hdeleting, _, _, hloop, _, _, hrecord, hpure⟩
    obtain ⟨-, -, hroom, rfl, rfl⟩ := (hfirst _ _).mp hqueue
    obtain ⟨-, -, hroom', rfl, rfl⟩ := (hsecond _ _).mp hdeleting
    obtain ⟨hdeletable, rfl⟩ := (hdelete _).mp hloop
    obtain ⟨hopened'', -, hroom'', rfl, rfl⟩ := (hthird _ _).mp hrecord
    obtain ⟨hpair, rfl⟩ := returns_pure.mp hpure
    obtain ⟨rfl, rfl⟩ := Prod.mk.inj hpair
    exact ⟨hdeletable, hopened'.mp hopened'', ⟨hroom, hroom', hroom''⟩, rfl, rfl⟩
  · rintro ⟨hdeletable, hkept, ⟨hroom, hroom', hroom''⟩, rfl, hafter⟩
    obtain ⟨rfl, rfl⟩ := Prod.mk.inj hafter
    exact ⟨_, _, (hfirst _ _).mpr ⟨hopened, hback, hroom, rfl, rfl⟩,
      _, _, (hsecond _ _).mpr ⟨hqueued.opened, hback, hroom', rfl, rfl⟩,
      (), _, (hdelete _).mpr ⟨hdeletable, rfl⟩,
      _, _, (hthird _ _).mpr ⟨hopened'.mpr hkept, fun name h => (hall name h).2, hroom'', rfl, rfl⟩,
      returns_pure.mpr ⟨rfl, rfl⟩⟩

end Reclaim

/-! ## Collecting -/

def reclaimCommits (doomed : List String) : Nat := if doomed = [] then 0 else 3

/-- The gc rows that a collection records. -/
def collectionRows (gone doomed : List String) : Nat :=
  if doomed = [] then gone.length else 2 * gone.length + 3 * doomed.length

/-- Nothing stands in the way of a collection. -/
structure Root.Clear (root : Root Text) (store : VerifiedAdapterStore Text) (retain : Nat) :
    Prop where
  tidy : root.Tidy
  idlePins : root.PinsReadable (root.idle store.activeGenerationPath)
  debrisPins : root.PinsReadable root.debris
  recoverable : ∀ name ∈ root.interrupted store.activeGenerationPath, root.Recoverable name
  named : ∀ name ∈ root.doomed store.activeGenerationPath retain, '\\' ∉ name.toList
  /-- A committed generation that is to be reclaimed has not been marked for deletion before. -/
  apart : ∀ name ∈ root.doomed store.activeGenerationPath retain,
    (parseGenerationDir name).isSome → name ∉ root.interrupted store.activeGenerationPath
  kept : ∀ name, store.Uses name → name ∉ root.recovered store.activeGenerationPath ∧
    name ∉ root.doomed store.activeGenerationPath retain
  room : Room store.manifest
    (recoveryCommits (root.recovered store.activeGenerationPath) +
      reclaimCommits (root.doomed store.activeGenerationPath retain))
    (collectionRows (root.recovered store.activeGenerationPath)
      (root.doomed store.activeGenerationPath retain))

/-- The entries that a collection removes. -/
def Root.swept (root : Root Text) (activeGenerationPath : Option String) (retain : Nat) :
    List String :=
  root.recovered activeGenerationPath ++ root.doomed activeGenerationPath retain

/-- What a collection leaves and reports. -/
structure Collected (codec : JsonCodec Text) (root : Root Text) (store : VerifiedAdapterStore Text)
    (retain : Nat) (report : AdapterGcReport) (after : Root Text) : Prop where
  swept : ∃ result,
    Swept codec root store (root.swept store.activeGenerationPath retain) after result
  deleted : ∀ path, path ∈ report.deletedGenerationPaths ↔
    path ∈ (root.swept store.activeGenerationPath retain).map entryPath
  classified : Classified root store.activeGenerationPath retain
    ⟨report.pinnedGenerationPaths, report.retainedGenerationPaths,
      report.reclaimableGenerationPaths⟩
  active : report.activeGenerationPath = store.activeGenerationPath

theorem Swept.trans {first second third : Root Text} {store store' store'' : VerifiedAdapterStore Text}
    {gone more : List String} (h : Swept codec first store gone second store')
    (hnext : Swept codec second store' (gone ++ more) third store'') :
    Swept codec first store (gone ++ more) third store'' where
  index := hnext.index.trans h.index
  pins := hnext.pins.trans h.pins
  entries name := by
    rw [hnext.entries, h.entries]
    by_cases hmem : name ∈ gone <;> simp [hmem]
  states path := by
    rw [hnext.states, h.states]
    by_cases hmem : path ∈ gone.map entryPath <;> simp [hmem]
  opened := hnext.opened
  ledger := hnext.ledger
  activePath := hnext.activePath.trans h.activePath

theorem Swept.of_mem {names other : List String} (h : Swept codec root store names after result)
    (hsame : ∀ name, name ∈ other ↔ name ∈ names) : Swept codec root store other after result where
  index := h.index
  pins := h.pins
  entries name := by
    rw [h.entries]
    simp only [hsame]
  states path := by
    rw [h.states]
    simp only [List.mem_map, hsame]
  opened := h.opened
  ledger := h.ledger
  activePath := h.activePath

/-- Paths of entries in another order are the paths of the names in another order. -/
theorem exists_names {paths : List String} (h : paths.Perm (names.map entryPath))
    (hnames : ∀ name ∈ names, EntryName name) :
    ∃ other : List String, paths = other.map entryPath ∧ other.Perm names := by
  refine ⟨paths.filterMap entryOfPath, ?_, (h.filterMap entryOfPath).trans ?_⟩
  · rw [List.map_filterMap]
    refine ((List.filterMap_eq_map_iff_forall_eq_some (g := id)).mpr fun path hpath => ?_).trans
      (List.map_id _) |>.symm
    obtain ⟨name, hname, rfl⟩ := List.mem_map.mp (h.subset hpath)
    rw [entryOfPath_entryPath (hnames name hname)]
    rfl
  · have hself : names.filterMap (entryOfPath ∘ entryPath) = names.map id :=
      List.filterMap_eq_map_iff_forall_eq_some.mpr fun name hname =>
        entryOfPath_entryPath (hnames name hname)
    rw [List.filterMap_map, hself, List.map_id]

theorem doomed_name (h : name ∈ root.doomed active retain) : EntryName name :=
  entryName_of_mem (mem_names.mpr (doomed_present h).1)

theorem mem_recovered : name ∈ root.recovered active ↔
    name ∈ root.interrupted active ∧ root.pinState name ≠ some true := by
  simp [Root.recovered, Root.gone]

/-- Behind the recovery a doomed entry can be deleted unless it is a generation that the
recovery has deleted. -/
theorem deletable_iff {middle : Root Text} (htidy : root.Tidy)
    (hentries : ∀ name, middle.entry name =
      if name ∈ root.recovered active then none else root.entry name)
    (hdoomed : name ∈ root.doomed active retain) :
    middle.Deletable name ↔ '\\' ∉ name.toList ∧
      ((parseGenerationDir name).isSome → name ∉ root.interrupted active) := by
  obtain ⟨hpresent, hpin⟩ := doomed_present hdoomed
  have hrecovered : name ∈ root.recovered active ↔ name ∈ root.interrupted active := by
    simp [mem_recovered, hpin]
  obtain ⟨node, hnode⟩ := Option.isSome_iff_exists.mp hpresent
  obtain ⟨hsymlink, hdir⟩ := htidy name node hnode
  rw [Root.Deletable, hentries]
  refine and_congr_right fun _ => ?_
  by_cases hinterrupted : name ∈ root.interrupted active
  · simp only [hrecovered.mpr hinterrupted, if_true, hinterrupted, not_true, imp_false]
    simp
  · simp only [mt hrecovered.mp hinterrupted, if_false, hnode, hinterrupted, not_false_iff,
      implies_true, iff_true]
    cases node with
    | dir bundle => trivial
    | symlink resolves => cases hsymlink
    | file =>
      by_contra hsome
      exact absurd (hdir (Option.isSome_iff_ne_none.mpr hsome)) (by decide)

theorem uses_recover {env : Env} : (root.recover env store active).2.Uses name ↔ store.Uses name := by
  unfold Root.recover
  dsimp only
  split <;> exact Iff.rfl

/-- A collection that answers found nothing in its way. -/
theorem gc_collects {report : AdapterGcReport} (hledger : root.Ledger)
    (h : Returns (gcAdapterGenerations codec envs retain false) root report after) :
    ∃ store, root.Opened codec store ∧ root.Clear store retain ∧
      Collected codec root store retain report after := by
  simp only [gcAdapterGenerations, returns_bind, returns_read, generationDirectorySummary_eq_some,
    Bool.false_eq_true, if_false] at h
  obtain ⟨store, _, ⟨hopened, rfl⟩, summary, _, ⟨⟨htidy, hsummary⟩, rfl⟩, classes, _,
    ⟨hclasses, rfl⟩, ⟨current, paths⟩, middle, hrecover, hrest⟩ := h
  change root.Opened codec store at hopened
  set active := store.activeGenerationPath with hactive
  have hpins := (classifyGenerations_isSome retain hsummary).mp (Option.isSome_of_eq_some hclasses)
  have hclassified := classifyGenerations_eq_some hsummary hclasses
  obtain ⟨hrecoverable, hkept, hroom, rfl, hmiddle⟩ :=
    (recover_returns hledger hopened).mp hrecover
  obtain ⟨hswept, hrooms⟩ := swept_recover (envs 0) hledger hopened hkept
  obtain rfl : middle = _ := congrArg Prod.fst hmiddle
  obtain rfl : current = _ := congrArg Prod.snd hmiddle
  obtain ⟨doomed, hreclaimable, hperm⟩ :=
    exists_names hclassified.reclaimable fun name hname => doomed_name hname
  have hnames : ∀ name ∈ doomed, EntryName name :=
    fun name hname => doomed_name (hperm.mem_iff.mp hname)
  refine ⟨store, hopened, ?_⟩
  rw [hreclaimable] at hrest
  by_cases hnone : doomed = []
  · -- nothing to reclaim
    have hempty : root.doomed active retain = [] := by
      rw [hnone] at hperm
      exact hperm.symm.eq_nil
    simp only [hnone, List.map_nil, if_true] at hrest
    obtain ⟨hreport, hafter⟩ := returns_pure.mp hrest
    refine ⟨⟨htidy, hpins.1, hpins.2, hrecoverable, by simp [← hactive, hempty],
      by simp [← hactive, hempty],
      fun name huses => ⟨fun hmem => hkept name hmem huses, by simp [← hactive, hempty]⟩,
      by simpa [← hactive, hempty, reclaimCommits, collectionRows] using hroom⟩, ?_⟩
    subst hreport hafter
    refine ⟨⟨_, hswept.of_mem fun name => ?_⟩, fun path => ?_, ?_, rfl⟩
    · rw [Root.swept, ← hactive, hempty, List.append_nil]
    · rw [Root.swept, ← hactive, hempty, List.append_nil]
    · refine ⟨hclassified.pinned, hclassified.retained, ?_⟩
      show List.Perm [] _
      rw [hempty, List.map_nil]
  · rw [if_neg (by simpa using hnone), returns_bind] at hrest
    obtain ⟨⟨final, deleted⟩, last, hreclaim, hpure⟩ := hrest
    have hback : ∀ name ∈ doomed, '\\' ∉ name.toList := by
      obtain ⟨_, _, hqueue, -⟩ := returns_bind.mp hreclaim
      exact ((recordPaths_returns recordable_reclaimable hswept.ledger
        (fun _ h => hswept.opened.unique h rfl) hnames hnone).mp hqueue).2.1
    obtain ⟨hdeletable, hkept', hroom', rfl, hlast⟩ :=
      (reclaim_returns hswept.ledger hswept.opened hnames hback
        (hperm.nodup_iff.mpr (doomed_nodup root active retain)) hnone
        fun name hname => recovered_name hledger hopened hname).mp hreclaim
    obtain ⟨hreport, hafter⟩ := returns_pure.mp hpure
    obtain rfl : last = _ := congrArg Prod.fst hlast
    obtain rfl : final = _ := congrArg Prod.snd hlast
    have hmem : ∀ name, name ∈ root.doomed active retain ↔ name ∈ doomed :=
      fun name => hperm.mem_iff.symm
    have hsome : root.doomed active retain ≠ [] := fun h => hnone (by
      rw [h] at hperm
      exact hperm.eq_nil)
    refine ⟨⟨htidy, hpins.1, hpins.2, hrecoverable, fun name hname => hback name ((hmem name).mp hname),
      fun name hname => ((deletable_iff htidy hswept.entries hname).mp
        (hdeletable name ((hmem name).mp hname))).2,
      fun name huses => ⟨fun h => hkept name h huses, fun h =>
        hkept' name ((hmem name).mp h) (uses_recover.mpr huses)⟩, ?_⟩, ?_⟩
    · rw [hrooms] at hroom'
      rw [← hactive, reclaimCommits, collectionRows, if_neg hsome, if_neg hsome, ← hperm.length_eq]
      refine Or.inr ((hroom'.resolve_left (by decide)).resolve_left (by omega) |> fun h => ?_)
      exact ⟨h.1, by omega, h.2.2⟩
    · have hgone : ∀ name ∈ root.recovered active,
          (root.recover (envs 0) store active).1.entry name = none := fun name hname => by
        rw [hswept.entries, if_pos hname]
      have hlater := swept_reclaim envs hswept.ledger hswept.opened hnames hback
        (fun name hname => recovered_name hledger hopened hname) hkept' hgone
      have hsame : ∀ name, name ∈ root.recovered active ++ root.doomed active retain ↔
          name ∈ root.recovered active ++ doomed := fun name => by simp [hmem]
      subst hreport hafter
      refine ⟨⟨_, hswept.trans (hlater.of_mem hsame)⟩, fun path => ?_, ?_, rfl⟩
      · rw [Root.swept, ← hactive]
        simp only [List.map_append, List.mem_append, List.mem_map, hmem]
      · exact ⟨hclassified.pinned, hclassified.retained, hreclaimable ▸ hclassified.reclaimable⟩

variable (envs) in
/-- A collection answers when nothing is in its way. -/
theorem gc_succeeds (hledger : root.Ledger) (hopened : root.Opened codec store)
    (hclear : root.Clear store retain) :
    ∃ report after, Returns (gcAdapterGenerations codec envs retain false) root report after := by
  set active := store.activeGenerationPath with hactive
  obtain ⟨classes, hclasses⟩ := Option.isSome_iff_exists.mp
    ((classifyGenerations_isSome retain rfl).mpr ⟨hclear.idlePins, hclear.debrisPins⟩)
  have hclassified := classifyGenerations_eq_some rfl hclasses
  have hkept : ∀ name ∈ root.recovered active, ¬store.Uses name :=
    fun name hmem huses => (hclear.kept name huses).1 hmem
  -- the counters have room for the whole collection, so also for the recovery alone
  have hroom : Room store.manifest (recoveryCommits (root.recovered active))
      (root.recovered active).length := by
    have htotal := hclear.room
    rw [← hactive] at htotal
    have hrows : (root.recovered active).length ≤
        collectionRows (root.recovered active) (root.doomed active retain) := by
      unfold collectionRows
      split <;> omega
    rcases Nat.eq_zero_or_pos (recoveryCommits (root.recovered active)) with hzero | hpos
    · exact .inl hzero
    · have := htotal.resolve_left (by omega)
      exact .inr ⟨by omega, by omega, by omega⟩
  have hrecover : Returns (recoverInterruptedAdapterGc codec (envs 0) active store) root
      ((root.recover (envs 0) store active).2, (root.recovered active).map entryPath)
      (root.recover (envs 0) store active).1 :=
    (recover_returns hledger hopened).mpr ⟨hclear.recoverable, hkept, hroom, rfl, rfl⟩
  obtain ⟨hswept, hrooms⟩ := swept_recover (envs 0) hledger hopened hkept
  obtain ⟨doomed, hreclaimable, hperm⟩ :=
    exists_names hclassified.reclaimable fun name hname => doomed_name hname
  have hmem : ∀ name, name ∈ doomed ↔ name ∈ root.doomed active retain :=
    fun name => hperm.mem_iff
  have hnames : ∀ name ∈ doomed, EntryName name :=
    fun name hname => doomed_name ((hmem name).mp hname)
  simp only [gcAdapterGenerations, returns_bind, returns_read, generationDirectorySummary_eq_some,
    Bool.false_eq_true, if_false]
  -- without generations to reclaim the collection ends behind the recovery
  by_cases hnone : doomed = []
  · have hnil : classes.reclaimable = [] := by rw [hreclaimable, hnone, List.map_nil]
    exact ⟨_, _, store, root, ⟨hopened, rfl⟩, _, root, ⟨⟨hclear.tidy, rfl⟩, rfl⟩, classes, root,
      ⟨hclasses, rfl⟩, _, _, hrecover, (returns_pure.mpr ⟨rfl, rfl⟩).ite_pos hnil⟩
  · have hsome : root.doomed active retain ≠ [] := fun h => hnone (by
      rw [h] at hperm
      exact hperm.eq_nil)
    have hroom' : Room (root.recover (envs 0) store active).2.manifest 3
        ((root.recovered active).length + 3 * doomed.length) := by
      have htotal := hclear.room
      rw [← hactive, reclaimCommits, collectionRows, if_neg hsome, if_neg hsome,
        ← hperm.length_eq] at htotal
      have := htotal.resolve_left (by omega)
      exact (hrooms _ _).mpr (.inr (.inr ⟨this.1, by omega, this.2.2⟩))
    have hdeletable : ∀ name ∈ doomed, (root.recover (envs 0) store active).1.Deletable name :=
      fun name hname => (deletable_iff hclear.tidy hswept.entries ((hmem name).mp hname)).mpr
        ⟨hclear.named name ((hmem name).mp hname), hclear.apart name ((hmem name).mp hname)⟩
    obtain ⟨pair, last, hreclaim⟩ : ∃ pair last, Returns (reclaimGenerations codec envs
        (root.recover (envs 0) store active).2 classes.reclaimable
        ((root.recovered active).map entryPath)) (root.recover (envs 0) store active).1 pair last := by
      rw [hreclaimable]
      exact ⟨_, _, (reclaim_returns hswept.ledger hswept.opened hnames
        (fun name hname => hclear.named name ((hmem name).mp hname))
        (hperm.nodup_iff.mpr (doomed_nodup root active retain)) hnone
        fun name hname => recovered_name hledger hopened hname).mpr ⟨hdeletable,
          fun name hname huses =>
            (hclear.kept name (uses_recover.mp huses)).2 ((hmem name).mp hname), hroom', rfl, rfl⟩⟩
    have hnil : classes.reclaimable ≠ [] := by
      rw [hreclaimable]
      simpa using hnone
    exact ⟨_, _, store, root, ⟨hopened, rfl⟩, _, root, ⟨⟨hclear.tidy, rfl⟩, rfl⟩, classes, root,
      ⟨hclasses, rfl⟩, _, _, hrecover,
      Returns.ite_neg (Returns.bind hreclaim (returns_pure.mpr ⟨rfl, rfl⟩)) hnil⟩

end OrdinalDB.Store
