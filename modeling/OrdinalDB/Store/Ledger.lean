import OrdinalDB.Store.Deletions
import OrdinalDB.Store.Edits

/-!
# The ledger of the collections

Which roots open, and what recording a state for some entries leaves.

* `Opened.shrink`: a root stays open while entries go that are not in use.
* `Root.Ledger`: the events of the gc queue are those of collections.
  `recordPaths_returns` says when a record succeeds, and `Recorded` what it
  leaves: the latest states are those before, but for the recorded entries.
-/

namespace OrdinalDB.Store

open Durable

variable {Text : Type} {codec : JsonCodec Text} {root after : Root Text} {name : String}
  {store : VerifiedAdapterStore Text}

/-! ## Shrinking roots -/

/-- Entries may have gone, and directories may have been emptied. -/
structure Shrinks (before after : Root Text) : Prop where
  index : after.disk.index = before.disk.index
  pins : after.pins = before.pins
  entries : ∀ name node, after.entry name = some node →
    ∃ old, before.entry name = some old ∧ (node = old ∨ node.isDir ∧ old.isDir)

theorem Shrinks.refl (root : Root Text) : Shrinks root root :=
  ⟨rfl, rfl, fun _ node h => ⟨node, h, .inl rfl⟩⟩

theorem Shrinks.trans {first second third : Root Text} (h : Shrinks first second)
    (hnext : Shrinks second third) : Shrinks first third where
  index := hnext.index.trans h.index
  pins := hnext.pins.trans h.pins
  entries name node hnode := by
    obtain ⟨middle, hmiddle, hkind⟩ := hnext.entries name node hnode
    obtain ⟨old, hold, hkind'⟩ := h.entries name middle hmiddle
    refine ⟨old, hold, ?_⟩
    rcases hkind with rfl | ⟨hdir, hdir'⟩
    · exact hkind'
    · rcases hkind' with rfl | ⟨-, hold⟩
      · exact .inr ⟨hdir, hdir'⟩
      · exact .inr ⟨hdir, hold⟩

theorem shrinks_remove (root : Root Text) (name : String) : Shrinks root (root.remove name) where
  index := rfl
  pins := rfl
  entries other node h := by
    rw [entry_remove] at h
    split at h
    next => cases h
    next => exact ⟨node, h, .inl rfl⟩

theorem shrinks_gut (root : Root Text) (name : String) : Shrinks root (root.gut name) where
  index := rfl
  pins := rfl
  entries other node h := by
    rw [entry_gut] at h
    split at h
    next =>
      obtain ⟨old, hold, rfl⟩ := Option.map_eq_some_iff.mp h
      refine ⟨old, hold, ?_⟩
      cases old with
      | dir bundle => exact .inr ⟨rfl, rfl⟩
      | file => exact .inl rfl
      | symlink resolves => exact .inl rfl
    next => exact ⟨node, h, .inl rfl⟩

theorem shrinks_removeAll (root : Root Text) (names : List String) :
    Shrinks root (root.removeAll names) := by
  induction names generalizing root with
  | nil => exact .refl root
  | cons name names ih => exact (shrinks_remove root name).trans (ih _)

/-! ## Open roots -/

def Root.Opened (codec : JsonCodec Text) (root : Root Text) (store : VerifiedAdapterStore Text) :
    Prop := openVerified codec root.disk root.storeFile none = some store

/-- The active generation is this entry. -/
def VerifiedAdapterStore.Uses (store : VerifiedAdapterStore Text) (name : String) : Prop :=
  locate store.manifest.activeGenerationPath = some (.vectors name)

theorem opened_iff : root.Opened codec store ↔ root.storeFile = .tables root.storeFile.rows ∧
    ∃ parsed generation,
      Opens codec root.disk root.storeFile.rows none none store parsed generation := by
  unfold Root.Opened openVerified openVerifiedAtStoreFile
  cases root.storeFile with
  | missing => simp
  | blank => simp
  | tables tables => exact openTables_eq_some.trans (and_iff_right rfl).symm

/-- What a root opens as depends on the database only. -/
theorem Root.Opened.unique {other : Root Text} {store' : VerifiedAdapterStore Text}
    (h : root.Opened codec store) (hother : other.Opened codec store')
    (hfile : other.storeFile = root.storeFile) : store' = store := by
  obtain ⟨-, _, _, hopens⟩ := opened_iff.mp h
  obtain ⟨-, _, _, hopens'⟩ := opened_iff.mp hother
  rw [hfile] at hopens'
  cases store
  cases store'
  exact VerifiedAdapterStore.mk.injEq .. ▸
    ⟨Option.some.inj (hopens'.manifest.symm.trans hopens.manifest),
      Option.some.inj (hopens'.payloads.symm.trans hopens.payloads)⟩

theorem noVectorArtifacts_iff {disk : Disk} {indexPath : String} :
    noVectorArtifacts disk indexPath none ↔
      (∀ relative ∈ [indexPath, indexDir], ∀ location, locate relative = some location →
        disk.exists? location = false) ∧
      ∀ name node, disk.node (.vectors name) = some node →
        node.isSymlink = false ∧ parseGenerationDir name = none := by
  unfold noVectorArtifacts
  rw [Bool.and_eq_true]
  refine and_congr ?_ ?_
  · rw [List.all_eq_true]
    refine forall₂_congr fun relative _ => ?_
    cases locate relative <;> simp
  · unfold Disk.node
    cases disk.vectors with
    | none => simp
    | some entries =>
      simp [List.all_eq_true, Prod.forall, Std.ExtTreeMap.mem_toList_iff_getElem?_eq_some]

/-- A store is used by a bundle that verifies, or it is empty. -/
theorem Root.Opened.active (h : root.Opened codec store) :
    locate store.manifest.activeGenerationPath = none ∧ store.activeGenerationPath = none ∨
      ∃ location bundle, locate store.manifest.activeGenerationPath = some location ∧
        root.disk.node location = some (.dir (some bundle)) ∧
        store.activeGenerationPath = some store.manifest.activeGenerationPath := by
  obtain ⟨-, parsed, generation, hopens⟩ := opened_iff.mp h
  have hmanifest := hopens.manifestGeneration
  simp only [verifyManifestGeneration, Bool.and_eq_true, decide_eq_true_eq] at hmanifest
  have hpath : store.manifest.activeGenerationPath = generation.path := hmanifest.1.1.2
  rcases Bool.eq_false_or_eq_true parsed.emptyLazy with hlazy | hlazy
  · obtain ⟨-, -, hempty, -⟩ := checkpoint_lazy hopens.checkpoint hlazy
    refine .inl ?_
    rw [VerifiedAdapterStore.activeGenerationPath, hpath, hempty]
    exact ⟨by decide, rfl⟩
  · obtain ⟨bundle, hbundle, -, hindex, -⟩ := checkpoint_bundle hopens.checkpoint hlazy
    simp only [Disk.bundle, Option.bind_eq_bind, Option.bind_eq_some_iff] at hbundle
    obtain ⟨location, hlocation, node, hnode, hdir⟩ := hbundle
    cases node with
    | dir content =>
      obtain rfl : content = some bundle := hdir
      refine .inr ⟨location, bundle, by rw [hpath, hindex, hlocation], hnode, ?_⟩
      rw [VerifiedAdapterStore.activeGenerationPath, Option.filter_eq_some_iff, hpath, hindex]
      refine ⟨rfl, by
        simp only [ne_eq, decide_not, Bool.not_eq_true', decide_eq_false_iff_not]
        rintro hnil
        rw [hnil] at hlocation
        have hempty : locate "" = none := by decide
        cases hempty.symm.trans hlocation⟩
    | file => cases hdir
    | symlink resolves => cases hdir

/-- The entry in use is there. -/
theorem Root.Opened.uses (h : root.Opened codec store) (huses : store.Uses name) :
    ∃ bundle, root.entry name = some (.dir (some bundle)) := by
  rcases h.active with ⟨hnone, -⟩ | ⟨location, bundle, hlocation, hnode, -⟩
  · cases hnone.symm.trans huses
  · obtain rfl := Option.some.inj (hlocation.symm.trans huses)
    exact ⟨bundle, hnode⟩

/-- Entries that go bring no artifacts of vectors. -/
theorem noVectorArtifacts_of_shrinks {indexPath : String} (hshrinks : Shrinks root after)
    (hbefore : noVectorArtifacts root.disk indexPath none) :
    noVectorArtifacts after.disk indexPath none := by
  obtain ⟨hrelative, hentries⟩ := noVectorArtifacts_iff.mp hbefore
  refine noVectorArtifacts_iff.mpr ⟨fun relative hmem location hlocation => ?_,
    fun name node hnode => ?_⟩
  · have hmissing := hrelative relative hmem location hlocation
    cases location with
    | index =>
      simp only [Disk.exists?, Disk.node] at hmissing ⊢
      rw [hshrinks.index]
      exact hmissing
    | vectors name =>
      refine Bool.eq_false_iff.mpr fun hexists => ?_
      obtain ⟨node, hnode, hthere⟩ : ∃ node, after.entry name = some node ∧ node.exists? := by
        simpa [Root.entry, Disk.exists?, Option.any_eq_true] using hexists
      obtain ⟨old, hold, hkind⟩ := hshrinks.entries name node hnode
      have hold' : root.disk.node (.vectors name) = some old := hold
      simp only [Disk.exists?, hold', Option.any_some] at hmissing
      rcases hkind with rfl | ⟨-, hdir⟩
      · exact absurd hthere (by simp [hmissing])
      · cases old <;> simp [Node.isDir, Node.exists?] at hdir hmissing
  · obtain ⟨old, hold, hkind⟩ := hshrinks.entries name node hnode
    obtain ⟨hsymlink, hname⟩ := hentries name old hold
    refine ⟨?_, hname⟩
    rcases hkind with rfl | ⟨hdir, -⟩
    · exact hsymlink
    · cases node with
      | dir bundle => rfl
      | file => rfl
      | symlink resolves => cases hdir

/-- Entries that are not in use may go. -/
theorem Root.Opened.shrink (h : root.Opened codec store) (hshrinks : Shrinks root after)
    (hfile : after.storeFile = root.storeFile)
    (hactive : ∀ name, store.Uses name → after.entry name = root.entry name) :
    after.Opened codec store := by
  obtain ⟨hrows, parsed, generation, hopens⟩ := opened_iff.mp h
  refine opened_iff.mpr ⟨hfile ▸ hrows, parsed, generation, ?_⟩
  rw [hfile]
  refine { hopens with checkpoint := ?_ }
  have hmanifest := hopens.manifestGeneration
  simp only [verifyManifestGeneration, Bool.and_eq_true, decide_eq_true_eq] at hmanifest
  have hcheckpoint := hopens.checkpoint
  unfold activeGenerationCheckpoint at hcheckpoint ⊢
  split
  next hlazy =>
    rw [if_pos hlazy] at hcheckpoint
    obtain ⟨_, hguard, hgeneration⟩ := Option.bind_eq_some_iff.mp hcheckpoint
    have hbefore : noVectorArtifacts root.disk parsed.indexPath none := by simpa using hguard
    have hafter := noVectorArtifacts_of_shrinks hshrinks hbefore
    simp only [hafter, guard, if_true] at hcheckpoint ⊢
    exact hgeneration
  next hlazy =>
    rw [if_neg hlazy] at hcheckpoint
    obtain ⟨bundle, hbundle, -, hindex, -⟩ :=
      checkpoint_bundle hopens.checkpoint (Bool.eq_false_iff.mpr hlazy)
    -- the active generation is the only entry that the check reads
    have hsame : after.disk.bundle parsed.indexPath = root.disk.bundle parsed.indexPath := by
      have huses : ∀ name, locate parsed.indexPath = some (.vectors name) → store.Uses name := by
        intro name hlocate
        rw [VerifiedAdapterStore.Uses, hmanifest.1.1.2, hindex]
        exact hlocate
      simp only [Disk.bundle]
      cases hlocate : locate parsed.indexPath with
      | none => rfl
      | some location =>
        cases location with
        | index => simp [Disk.node, hshrinks.index]
        | vectors name =>
          have := hactive name (huses name hlocate)
          unfold Root.entry at this
          simp [this]
    rw [hsame]
    exact hcheckpoint

/-! ## Events -/

def GcRow.update (event : GcRow) : GenerationGcUpdate :=
  ⟨event.generationId, event.path, event.state, event.reason⟩

/-- An event that a collection records: its path is that of an entry. -/
def GcRow.IsEvent (event : GcRow) : Prop :=
  validateGcUpdate event.update ∧ ∃ name, EntryName name ∧ event.path = entryPath name

/-- The database numbers its rows, and its gc queue holds events of collections. -/
structure Root.Ledger (root : Root Text) : Prop where
  fresh : root.storeFile.Fresh
  events : ∀ (key : Nat) (row : Option GcRow), root.storeFile.rows.gcQueue[key]? = some row →
    ∃ event, row = some event ∧ event.IsEvent

/-- The latest state of every path. -/
def Root.states (root : Root Text) : Table String String :=
  (latestGcStatesByPath root.storeFile).getD ∅

theorem Root.Ledger.read (h : root.Ledger) (hfile : root.storeFile = .tables root.storeFile.rows) :
    latestGcStatesByPath root.storeFile = some root.states ∧
      root.states = (∅ : Table String String).insertMany
        ((root.storeFile.rows.gcQueue.toList.filterMap Prod.snd).map
          fun event => (event.path, event.state)) := by
  have hevents : generationGcEvents root.storeFile =
      some (root.storeFile.rows.gcQueue.toList.filterMap Prod.snd) := by
    have hevent := h.events
    rw [hfile] at hevent ⊢
    have hfilter : ∀ row ∈ root.storeFile.rows.gcQueue.toList, (row.2.filter fun event =>
        validateGcUpdate event.update) = row.2 := by
      intro row hrow
      obtain ⟨event, hsome, hvalid, -⟩ := hevent row.1 row.2
        (Std.ExtTreeMap.mem_toList_iff_getElem?_eq_some.mp hrow)
      rw [hsome]
      exact Option.filter_eq_some_iff.mpr ⟨rfl, hvalid⟩
    have hread : ∀ row ∈ root.storeFile.rows.gcQueue.toList, (row.2.filter fun event =>
        validateGcUpdate event.update).isSome := by
      intro row hrow
      rw [hfilter row hrow]
      obtain ⟨event, hsome, -⟩ := hevent row.1 row.2
        (Std.ExtTreeMap.mem_toList_iff_getElem?_eq_some.mp hrow)
      exact Option.isSome_of_eq_some hsome
    refine (Table.mapM_of_isSome hread).trans (congrArg some ?_)
    exact List.filterMap_congr hfilter
  have hlatest : latestGcStatesByPath root.storeFile =
      some ((∅ : Table String String).insertMany
        ((root.storeFile.rows.gcQueue.toList.filterMap Prod.snd).map
          fun event => (event.path, event.state))) := by
    rw [latestGcStatesByPath, hevents]
    rfl
  rw [Root.states, hlatest]
  exact ⟨rfl, rfl⟩

/-- The paths of the ledger are those of entries, without backslashes. -/
theorem Root.Ledger.path (h : root.Ledger) (hfile : root.storeFile = .tables root.storeFile.rows)
    {path state : String} (hstate : root.states[path]? = some state) :
    ∃ name, path = entryPath name ∧ EntryName name ∧ '\\' ∉ name.toList := by
  rw [(h.read hfile).2] at hstate
  have hpath : path ∈ (root.storeFile.rows.gcQueue.toList.filterMap Prod.snd).map
      fun event => event.path := by
    by_contra hnone
    rw [Table.insertMany_of_not_mem (by rwa [List.map_map])] at hstate
    simp at hstate
  obtain ⟨event, hevent, rfl⟩ := List.mem_map.mp hpath
  obtain ⟨row, hrow, hsome⟩ := List.mem_filterMap.mp hevent
  obtain ⟨_, hsame, hvalid, name, hname, hpath⟩ := h.events row.1 row.2
    (Std.ExtTreeMap.mem_toList_iff_getElem?_eq_some.mp hrow)
  obtain rfl := Option.some.inj (hsome.symm.trans hsame)
  refine ⟨name, hpath, hname, ?_⟩
  simp only [validateGcUpdate, GcRow.update, hpath, Bool.and_eq_true] at hvalid
  exact (validateRelativePath_entryPath hname).mp hvalid.1.1.1

/-- The entries whose deletion has been cut. -/
def Root.interrupted (root : Root Text) (activeGenerationPath : Option String) : List String :=
  ((root.states.toList.filter (isInterrupted activeGenerationPath)).map Prod.fst).filterMap
    entryOfPath

section Interrupted

variable {active : Option String} (h : root.Ledger)
  (hfile : root.storeFile = .tables root.storeFile.rows)

include h hfile

theorem Root.Ledger.interrupted_paths :
    (root.states.toList.filter (isInterrupted active)).map Prod.fst =
      (root.interrupted active).map entryPath := by
  rw [Root.interrupted, List.map_filterMap]
  refine ((List.filterMap_eq_map_iff_forall_eq_some (g := id)).mpr fun path hpath => ?_).trans
    (List.map_id _) |>.symm
  obtain ⟨row, hrow, rfl⟩ := List.mem_map.mp hpath
  obtain ⟨name, hname, hentry, -⟩ := h.path hfile
    (Std.ExtTreeMap.mem_toList_iff_getElem?_eq_some.mp (List.mem_filter.mp hrow).1)
  rw [hname, entryOfPath_entryPath hentry]
  rfl

theorem Root.Ledger.mem_interrupted : name ∈ root.interrupted active ↔
    root.states[entryPath name]? = some generationStateDeleting ∧
      some (entryPath name) ≠ active := by
  rw [← List.mem_map_of_injective entryPath_injective, ← h.interrupted_paths hfile, List.mem_map]
  constructor
  · rintro ⟨row, hrow, hpath⟩
    obtain ⟨hmem, hinterrupted⟩ := List.mem_filter.mp hrow
    simp only [isInterrupted, Bool.and_eq_true, decide_eq_true_eq] at hinterrupted
    have hget := Std.ExtTreeMap.mem_toList_iff_getElem?_eq_some.mp hmem
    rw [hpath, hinterrupted.1] at hget
    exact ⟨hget, hpath ▸ hinterrupted.2⟩
  · rintro ⟨hget, hother⟩
    refine ⟨(entryPath name, generationStateDeleting), List.mem_filter.mpr
      ⟨Std.ExtTreeMap.mem_toList_iff_getElem?_eq_some.mpr hget, ?_⟩, rfl⟩
    simp [isInterrupted, hother]

theorem Root.Ledger.interrupted_nodup : (root.interrupted active).Nodup := by
  refine List.Nodup.of_map entryPath ?_
  rw [← h.interrupted_paths hfile]
  exact (Table.nodup_keys_toList root.states).sublist (List.filter_sublist.map _)

/-- Interrupted deletions are those of names without backslashes. -/
theorem Root.Ledger.interrupted_name (hmem : name ∈ root.interrupted active) :
    EntryName name ∧ '\\' ∉ name.toList := by
  obtain ⟨other, hsame, hentry, hback⟩ := h.path hfile ((h.mem_interrupted hfile).mp hmem).1
  obtain rfl := entryPath_injective hsame
  exact ⟨hentry, hback⟩

end Interrupted

end OrdinalDB.Store
