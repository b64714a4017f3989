import OrdinalDB.Store.Collection
import OrdinalDB.Store.History

/-!
# Roots that saves and collections leave

`Reached` are the roots that any sequence of saves, complete and cut
collections and changes of the directory leaves. All of them keep a ledger
(`Reached.ledger`): no matter where the collections were cut, the events of the
gc queue are those of entries of `vectors/`.
-/

namespace OrdinalDB.Store

open Durable

variable {Text : Type} {codec : JsonCodec Text} {env : Env} {root : Root Text}

/-- The roots that saves and collections leave. The directory changes as it likes in between:
generations, debris and pins come and go. -/
inductive Reached (codec : JsonCodec Text) : Root Text → Prop
  | start (disk : Disk) (pins : Table String PinFile) (named : disk.Named) :
      Reached codec ⟨disk, pins, .missing, named⟩
  | change {root : Root Text} (disk : Disk) (pins : Table String PinFile) (named : disk.Named) :
      Reached codec root → Reached codec ⟨disk, pins, root.storeFile, named⟩
  | create {root : Root Text} :
      Reached codec root → Reached codec { root with storeFile := root.storeFile.created }
  | save {root : Root Text} (env : Env) (call : Call Text) : call.updates = [] →
      Reached codec root →
        Reached codec { root with storeFile := (call.run codec (env.on root) root.storeFile).2 }
  | collect {root after : Root Text} (envs : Nat → Env) (retain : Nat) (dryRun : Bool) :
      Reached codec root → Cut (gcAdapterGenerations codec envs retain dryRun) root after →
        Reached codec after

/-! ## Ledgers along a run -/

/-- A database with a history, or one without tables; and the events of collections. -/
structure Root.Chronicle (root : Root Text) : Prop where
  history : root.storeFile = .blank ∨ ∃ recorded, History recorded root.storeFile
  events : ∀ (key : Nat) (row : Option GcRow), root.storeFile.rows.gcQueue[key]? = some row →
    ∃ event, row = some event ∧ event.IsEvent

theorem Root.Chronicle.ledger (h : root.Chronicle) : root.Ledger where
  fresh := by
    rcases h.history with hblank | ⟨recorded, hhistory⟩
    · rw [hblank]
      trivial
    · exact hhistory.fresh
  events := h.events

theorem Root.Chronicle.of_storeFile {after : Root Text} (h : root.Chronicle)
    (hfile : after.storeFile = root.storeFile) : after.Chronicle :=
  ⟨hfile ▸ h.history, hfile ▸ h.events⟩

/-- A call whose updates are those of entries. -/
theorem Root.Chronicle.call (h : root.Chronicle) (call : Call Text)
    (hupdates : ∀ update ∈ call.updates, ∃ name, EntryName name ∧ update.path = entryPath name)
    (hvalid : (call.run codec (env.on root) root.storeFile).2 = root.storeFile ∨
      call.updates.all validateGcUpdate) :
    Root.Chronicle { root with storeFile := (call.run codec (env.on root) root.storeFile).2 } := by
  have hhistory : (call.run codec (env.on root) root.storeFile).2 = .blank ∨
      ∃ recorded, History recorded (call.run codec (env.on root) root.storeFile).2 := by
    rcases h.history with hblank | ⟨recorded, hhistory⟩
    · rcases call.run_effect codec (env.on root) root.storeFile with
        ⟨hfile, -⟩ | ⟨after, manifest, -, hcommit⟩
      · exact .inl (hfile.trans hblank)
      · rcases hcommit.opened with hmissing | ⟨htables, -⟩
        · cases hblank.symm.trans hmissing
        · cases hblank.symm.trans htables
    · have hanswer := (@History.answer _ codec recorded root.storeFile hhistory
        (env.on root, call)).2
      exact .inr ⟨_, hanswer⟩
  refine ⟨hhistory, fun key row hrow => ?_⟩
  rcases hvalid with hsame | hvalid
  · simp only [hsame] at hrow
    exact h.events key row hrow
  rcases call.run_effect codec (env.on root) root.storeFile with
    ⟨hfile, -⟩ | ⟨after, manifest, houtcome, hcommit⟩
  · simp only [hfile] at hrow
    exact h.events key row hrow
  · simp only [houtcome, reopen, StoreFile.rows, hcommit.gcQueue] at hrow
    by_cases hnew : key ∈
        (gcRows (env.on root) root.storeFile.gcCount call.updates).map Prod.fst
    · obtain ⟨entry, hentry, rfl⟩ := List.mem_map.mp hnew
      have hnodup : ((gcRows (env.on root) root.storeFile.gcCount call.updates).map
          Prod.fst).Nodup := by
        rw [keys_gcRows]
        exact List.nodup_range'
      rw [Table.insertMany_of_nodup hnodup hentry] at hrow
      obtain rfl := Option.some.inj hrow
      obtain ⟨⟨update, offset⟩, hupdate, rfl⟩ := List.mem_map.mp hentry
      have hmem := List.fst_mem_of_mem_zipIdx hupdate
      exact ⟨_, rfl, List.all_eq_true.mp hvalid update hmem, hupdates update hmem⟩
    · rw [Table.insertMany_of_not_mem hnew] at hrow
      exact h.events key row hrow

theorem Root.Chronicle.save (h : root.Chronicle) {call : Call Text} (hupdates : call.updates = []) :
    Root.Chronicle { root with storeFile := (call.run codec (env.on root) root.storeFile).2 } :=
  h.call call (by simp [hupdates]) (.inr (by simp [hupdates]))

/-! ## Ledgers along a collection -/

/-- Paths of entries. -/
def AreEntries (paths : List String) : Prop :=
  ∀ path ∈ paths, ∃ name, EntryName name ∧ path = entryPath name

theorem chronicle_record {expected : Option StoreRevision} {updates : List GenerationGcUpdate}
    (hupdates : ∀ update ∈ updates, ∃ name, EntryName name ∧ update.path = entryPath name) :
    Triple Root.Chronicle (recordGenerationGcWithExistingLock codec env expected updates)
      (fun _ => Root.Chronicle) Root.Chronicle := by
  refine .step fun root h => ?_
  have hvalid : (recordGenerationGcInner codec (env.on root) root.storeFile expected updates).2 =
      root.storeFile ∨ updates.all validateGcUpdate := by
    unfold recordGenerationGcInner
    split
    next => exact .inl rfl
    next =>
      split
      next => exact .inl rfl
      next tables htables =>
        obtain ⟨_, _, _, hrecorded⟩ := gcTransaction_eq_some htables
        exact .inr hrecorded.valid
  have hcall := @Root.Chronicle.call _ codec env root h (.recordGenerationGc expected updates)
    hupdates hvalid
  exact ⟨h, hcall, fun _ _ => hcall⟩

theorem chronicle_recordPaths {store : VerifiedAdapterStore Text} {state reason : String}
    {paths : List String} (hpaths : AreEntries paths) :
    Triple Root.Chronicle (recordPaths codec env store state reason paths)
      (fun _ => Root.Chronicle) Root.Chronicle := by
  refine Triple.seq (fun updates root => root.Chronicle ∧
    paths.mapM (gcUpdateForPath state reason) = some updates)
    (.read (fun _ _ h hupdates => ⟨h, hupdates⟩) fun _ h => h) fun updates => .given fun hupdates => ?_
  refine chronicle_record fun update hmem => ?_
  rw [← Table.filterMap_of_mapM hupdates] at hmem
  obtain ⟨path, hpath, hupdate⟩ := List.mem_filterMap.mp hmem
  obtain ⟨name, hname, rfl⟩ := hpaths path hpath
  obtain ⟨id, -, hupdate⟩ := Option.bind_eq_some_iff.mp hupdate
  obtain rfl := Option.some.inj hupdate
  exact ⟨name, hname, rfl⟩

theorem chronicle_delete {path : String} :
    Triple Root.Chronicle (@deleteGenerationDir Text path) (fun _ => Root.Chronicle)
      Root.Chronicle := by
  have hdelete : Triple (fun root => root.Chronicle ∧ root.Chronicle)
      (@deleteGenerationDir Text path) (fun _ => Root.Chronicle) Root.Chronicle :=
    delete_keeps fun _ _ _ h => ⟨h.of_storeFile rfl, h.of_storeFile rfl⟩
  exact hdelete.weaken (fun _ h => ⟨h, h⟩) (fun _ _ h => h) fun _ h => h

theorem chronicle_recoverPaths {paths : List String} :
    Triple Root.Chronicle (@recoverPaths Text paths)
      (fun gone root => root.Chronicle ∧ gone ⊆ paths) Root.Chronicle :=
  recoverPaths_keeps fun _ _ _ _ _ h _ _ => ⟨h.of_storeFile rfl, h.of_storeFile rfl⟩

/-- The paths of a ledger that can be read are those of entries. -/
theorem areEntries_of_states {states : Table String String} (h : root.Ledger)
    (hstates : latestGcStatesByPath root.storeFile = some states) (keep : String × String → Bool) :
    AreEntries ((states.toList.filter keep).map Prod.fst) := by
  have hfile : root.storeFile = .tables root.storeFile.rows := by
    unfold latestGcStatesByPath generationGcEvents at hstates
    cases hfile : root.storeFile with
    | missing =>
      rw [hfile] at hstates
      cases hstates
    | blank =>
      rw [hfile] at hstates
      cases hstates
    | tables tables => rfl
  have hsame : states = root.states := by rw [Root.states, hstates, Option.getD_some]
  rintro path hpath
  obtain ⟨row, hrow, rfl⟩ := List.mem_map.mp hpath
  have hget := Std.ExtTreeMap.mem_toList_iff_getElem?_eq_some.mp (List.mem_filter.mp hrow).1
  rw [hsame] at hget
  obtain ⟨name, hname, hentry, -⟩ := h.path hfile hget
  exact ⟨name, hentry, hname⟩

theorem chronicle_recover {active : Option String} {store : VerifiedAdapterStore Text} :
    Triple Root.Chronicle (recoverInterruptedAdapterGc codec env active store)
      (fun result root => root.Chronicle ∧ AreEntries result.2) Root.Chronicle := by
  refine Triple.seq (fun states root => root.Chronicle ∧
    AreEntries ((states.toList.filter (isInterrupted active)).map Prod.fst))
    (.read (fun _ _ h hstates => ⟨h, areEntries_of_states h.ledger hstates _⟩) fun _ h => h)
    fun states => .given fun hentries => ?_
  refine chronicle_recoverPaths.bind fun gone => .given fun hgone => ?_
  have hgone : AreEntries gone := fun path hpath => hentries path (hgone hpath)
  split
  · exact .pure fun _ h => ⟨⟨h, hgone⟩, h⟩
  · exact (chronicle_recordPaths hgone).bind fun _ => .pure fun _ h => ⟨⟨h, hgone⟩, h⟩

theorem chronicle_reclaim {envs : Nat → Env} {store : VerifiedAdapterStore Text}
    {reclaimable recovered : List String} (hreclaimable : AreEntries reclaimable)
    (hrecovered : AreEntries recovered) :
    Triple Root.Chronicle (reclaimGenerations codec envs store reclaimable recovered)
      (fun _ => Root.Chronicle) Root.Chronicle := by
  have hall : AreEntries (recovered ++ reclaimable) := fun path hpath =>
    (List.mem_append.mp hpath).elim (hrecovered path) (hreclaimable path)
  refine (chronicle_recordPaths hreclaimable).bind fun _ =>
    (chronicle_recordPaths hreclaimable).bind fun _ => ?_
  refine (Triple.forM fun path _ => chronicle_delete).bind fun _ => ?_
  exact (chronicle_recordPaths hall).bind fun _ => .pure fun _ h => ⟨h, h⟩

theorem chronicle_gc {envs : Nat → Env} {retain : Nat} {dryRun : Bool} :
    Triple Root.Chronicle (gcAdapterGenerations codec envs retain dryRun)
      (fun _ => Root.Chronicle) Root.Chronicle := by
  have hread : ∀ {α : Type} (f : Root Text → Option α),
      Triple Root.Chronicle (Prog.read f) (fun _ => Root.Chronicle) Root.Chronicle :=
    fun f => .read (fun _ _ h _ => h) fun _ h => h
  refine (hread _).bind fun store => ?_
  refine Triple.seq (fun summary root => root.Chronicle ∧
    generationDirectorySummary root.disk store.activeGenerationPath = some summary)
    (.read (fun _ _ h hsummary => ⟨h, hsummary⟩) fun _ h => h) fun summary => ?_
  refine Triple.seq (fun classes root => root.Chronicle ∧ AreEntries classes.reclaimable)
    (.read (fun root classes h hclasses => ⟨h.1, ?_⟩) fun _ h => h.1)
    fun classes => .given fun hreclaimable => ?_
  · have hclassified := classifyGenerations_eq_some
      (generationDirectorySummary_eq_some.mp h.2).2 hclasses
    rintro path hpath
    obtain ⟨name, hname, rfl⟩ := List.mem_map.mp (hclassified.reclaimable.subset hpath)
    exact ⟨name, doomed_name hname, rfl⟩
  · dsimp only
    split
    · exact .pure fun _ h => ⟨h, h⟩
    · refine chronicle_recover.bind fun result => .given fun hrecovered => ?_
      split
      · exact .pure fun _ h => ⟨h, h⟩
      · exact (chronicle_reclaim hreclaimable hrecovered).bind fun _ => .pure fun _ h => ⟨h, h⟩

theorem Reached.chronicle (h : Reached codec root) : root.Chronicle := by
  induction h with
  | start disk pins named =>
    exact ⟨.inr ⟨0, history_missing⟩, fun key row hrow => by simp [StoreFile.rows, Tables.empty] at hrow⟩
  | change disk pins named _ ih => exact ih.of_storeFile rfl
  | @create root _ ih =>
    cases hfile : root.storeFile with
    | missing => exact ⟨.inl rfl, fun key row hrow => by
        simp [StoreFile.created, StoreFile.rows, Tables.empty] at hrow⟩
    | blank => exact ih.of_storeFile (by rw [hfile]; rfl)
    | tables tables => exact ih.of_storeFile (by rw [hfile]; rfl)
  | save env call hupdates _ ih => exact ih.save hupdates
  | collect envs retain dryRun _ hcut ih => exact chronicle_gc.cuts _ _ ih hcut

theorem Reached.ledger (h : Reached codec root) : root.Ledger := h.chronicle.ledger

end OrdinalDB.Store
