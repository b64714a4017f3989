import OrdinalDB.Store.Collection

/-!
# Cutting a collection

What a crash leaves of a collection, wherever it falls (`midway_of_cut`): the
entries that the collection does not remove are as before, an entry that it has
begun to recover is gone or still marked, and no path is marked for deletion but
for earlier marks and doomed entries.
-/

namespace OrdinalDB.Store

open Durable

variable {Text : Type} {codec : JsonCodec Text} {env : Env} {envs : Nat → Env}
  {root after next : Root Text} {store current result : VerifiedAdapterStore Text} {retain : Nat}
  {gone names : List String} {name : String}

/-! ## Trails -/

/-- The root behind some steps of a collection: of the entries to remove some are gone, and of the
records some are made. -/
structure Trail (codec : JsonCodec Text) (root : Root Text) (store : VerifiedAdapterStore Text)
    (retain : Nat) (gone : List String) (current : VerifiedAdapterStore Text) (after : Root Text) :
    Prop where
  shrinks : Shrinks root after
  others : ∀ name, name ∉ root.swept store.activeGenerationPath retain →
    after.entry name = root.entry name
  gone : ∀ name ∈ gone, after.entry name = none
  marked : ∀ name, after.states[entryPath name]? = some generationStateDeleting →
    root.states[entryPath name]? = some generationStateDeleting ∨
      name ∈ root.doomed store.activeGenerationPath retain
  ledger : after.Ledger
  source : ∃ opened : Root Text, opened.Opened codec current ∧ opened.storeFile = after.storeFile
  activePath : current.manifest.activeGenerationPath = store.manifest.activeGenerationPath

theorem Trail.start (hledger : root.Ledger) (hopened : root.Opened codec store) :
    Trail codec root store retain [] store root where
  shrinks := .refl root
  others _ _ := rfl
  gone _ h := nomatch h
  marked _ h := .inl h
  ledger := hledger
  source := ⟨root, hopened, rfl⟩
  activePath := rfl

namespace Trail

variable (h : Trail codec root store retain gone current after)

include h

/-- The store file determines what the root opens as. -/
theorem same (store' : VerifiedAdapterStore Text) (hopened : after.Opened codec store') :
    store' = current := by
  obtain ⟨opened, hsource, hfile⟩ := h.source
  exact hsource.unique hopened hfile.symm

theorem shrink (hshrinks : Shrinks after next) (hfile : next.storeFile = after.storeFile)
    (hothers : ∀ name, name ∉ root.swept store.activeGenerationPath retain →
      next.entry name = after.entry name) :
    Trail codec root store retain gone current next where
  shrinks := h.shrinks.trans hshrinks
  others name hname := (hothers name hname).trans (h.others name hname)
  gone name hname := by
    cases hentry : next.entry name with
    | none => rfl
    | some node =>
      obtain ⟨old, hold, -⟩ := hshrinks.entries name node hentry
      cases (h.gone name hname).symm.trans hold
  marked name := by
    rw [states_of_storeFile hfile]
    exact h.marked name
  ledger := h.ledger.of_storeFile hfile
  source := by
    obtain ⟨opened, hsource, hsame⟩ := h.source
    exact ⟨opened, hsource, hsame.trans hfile.symm⟩
  activePath := h.activePath

theorem deleted (hname : name ∈ root.swept store.activeGenerationPath retain) :
    Trail codec root store retain gone current (after.gut name) ∧
      Trail codec root store retain gone current (after.remove name) := by
  have hne : ∀ other, other ∉ root.swept store.activeGenerationPath retain → other ≠ name := by
    rintro other hother rfl
    exact hother hname
  constructor
  · refine h.shrink (shrinks_gut after name) rfl fun other hother => ?_
    rw [entry_gut, if_neg (hne other hother)]
  · refine h.shrink (shrinks_remove after name) rfl fun other hother => ?_
    rw [entry_remove, if_neg (hne other hother)]

theorem recorded {state : String} (hrecorded : Recorded codec after current state names next result)
    (hdoomed : state = generationStateDeleting →
      names ⊆ root.doomed store.activeGenerationPath retain) :
    Trail codec root store retain gone result next := by
  have hentry : ∀ name, next.entry name = after.entry name := fun name => by
    rw [Root.entry, Root.entry, hrecorded.disk]
  refine ⟨h.shrinks.trans ⟨by rw [hrecorded.disk], hrecorded.pins, fun name node hnode => ?_⟩,
    fun name hname => (hentry name).trans (h.others name hname),
    fun name hname => (hentry name).trans (h.gone name hname), fun name hmarked => ?_,
    hrecorded.ledger, ⟨next, hrecorded.opened, rfl⟩, hrecorded.activePath.trans h.activePath⟩
  · exact ⟨node, (hentry name).symm.trans hnode, .inl rfl⟩
  · rw [hrecorded.states] at hmarked
    split at hmarked
    next hmem =>
      rw [List.mem_map_of_injective entryPath_injective] at hmem
      exact .inr (hdoomed (Option.some.inj hmarked) hmem)
    next => exact h.marked name hmarked

end Trail

/-- A directory that is still there has the pin it had. -/
theorem Shrinks.pinState (h : Shrinks root after) (hpresent : (after.entry name).isSome) :
    after.pinState name = root.pinState name := by
  obtain ⟨node, hnode⟩ := Option.isSome_iff_exists.mp hpresent
  obtain ⟨old, hold, hkind⟩ := h.entries name node hnode
  rcases hkind with rfl | ⟨hdir, hdir'⟩
  · exact pinState_of_entry (hnode.trans hold.symm) h.pins
  · cases node with
    | dir bundle =>
      cases old with
      | dir bundle' => rw [Root.pinState, Root.pinState, hnode, hold, h.pins]
      | file => cases hdir'
      | symlink resolves => cases hdir'
    | file => cases hdir
    | symlink resolves => cases hdir

/-! ## Cut collections -/

/-- The root that a cut collection leaves: the entries to recover are gone, or nothing has been
recorded. -/
def Midway (codec : JsonCodec Text) (root : Root Text) (store : VerifiedAdapterStore Text)
    (retain : Nat) (after : Root Text) : Prop :=
  ∃ gone current, Trail codec root store retain gone current after ∧
    (gone = root.recovered store.activeGenerationPath ∨ after.storeFile = root.storeFile)

theorem trail_record {state reason : String} (hrecordable : Recordable state reason)
    (hnames : ∀ name ∈ names, EntryName name) (hwrites : names ≠ [])
    (hdoomed : state = generationStateDeleting →
      names ⊆ root.doomed store.activeGenerationPath retain) :
    Triple (Trail codec root store retain gone current)
      (recordPaths codec env current state reason (names.map entryPath))
      (fun result => Trail codec root store retain gone result)
      (fun after => ∃ result, Trail codec root store retain gone result after) where
  returns _ _ _ h hreturns :=
    h.recorded (recordPaths_recorded hrecordable h.ledger h.same hnames hwrites hreturns) hdoomed
  cuts before after h hcut := by
    rcases cut_recordPaths hrecordable h.ledger h.same hnames hwrites hcut with rfl | ⟨_, hrecorded⟩
    · exact ⟨current, h⟩
    · exact ⟨_, h.recorded hrecorded hdoomed⟩

theorem trail_reclaim (hnames : names.Perm (root.doomed store.activeGenerationPath retain))
    (hwrites : names ≠ []) (hgone : ∀ name ∈ gone, EntryName name) :
    Triple (Trail codec root store retain gone current)
      (reclaimGenerations codec envs current (names.map entryPath) (gone.map entryPath))
      (fun _ after => ∃ result, Trail codec root store retain gone result after)
      (fun after => ∃ result, Trail codec root store retain gone result after) := by
  have hentries : ∀ name ∈ names, EntryName name :=
    fun name hname => doomed_name (hnames.mem_iff.mp hname)
  have hall : ∀ name ∈ gone ++ names, EntryName name := fun name hname =>
    (List.mem_append.mp hname).elim (hgone name) (hentries name)
  refine (trail_record recordable_reclaimable hentries hwrites fun h => absurd h (by decide)).bind
    fun queued => ?_
  refine (trail_record recordable_deleting hentries hwrites fun _ => hnames.subset).bind
    fun deleting => ?_
  refine Triple.seq (fun _ => Trail codec root store retain gone deleting) ?_ fun _ => ?_
  · refine Triple.weaken (.forM fun path hpath => ?_) (fun _ h => h) (fun _ _ h => h)
      fun _ h => ⟨_, h⟩
    obtain ⟨name, hname, rfl⟩ := List.mem_map.mp hpath
    refine Triple.weaken (delete_keeps fun other hother after h => ?_) (fun _ h => ⟨h, h⟩)
      (fun _ _ h => h) fun _ h => h
    rw [entryOfPath_entryPath (hentries name hname)] at hother
    obtain rfl := Option.some.inj hother
    exact h.deleted (List.mem_append_right _ (hnames.subset hname))
  · dsimp only
    rw [← List.map_append]
    have hwrites' : gone ++ names ≠ [] := fun h => hwrites (List.append_eq_nil_iff.mp h).2
    exact (trail_record recordable_deleted hall hwrites' fun h => absurd h (by decide)).bind
      fun _ => .pure fun _ h => ⟨⟨_, h⟩, _, h⟩

section Run

variable (hledger : root.Ledger) (hopened : root.Opened codec store)

include hledger hopened

theorem trail_recover :
    Triple (fun before => before = root)
      (recoverInterruptedAdapterGc codec env store.activeGenerationPath store)
      (fun result after => Trail codec root store retain
          (root.recovered store.activeGenerationPath) result.1 after ∧
        result.2 = (root.recovered store.activeGenerationPath).map entryPath)
      (Midway codec root store retain) := by
  set active := store.activeGenerationPath with hactive
  have hstart : Trail codec root store retain [] store root := .start hledger hopened
  have hentries : ∀ name ∈ root.interrupted active, EntryName name ∧ '\\' ∉ name.toList :=
    fun name hname => hledger.interrupted_name hopened.file hname
  refine Triple.seq (fun states before => before = root ∧ states = root.states)
    (.read (fun _ _ h hstates => ⟨h, ?_⟩) fun _ h => ?_) fun states => .given fun hstates => ?_
  · rw [h, (hledger.read hopened.file).1] at hstates
    exact (Option.some.inj hstates).symm
  · subst h
    exact ⟨[], store, hstart, .inr rfl⟩
  subst hstates
  dsimp only
  rw [hledger.interrupted_paths hopened.file]
  -- the loop removes entries to recover only
  have hloop : Triple (fun before => Trail codec root store retain [] store before ∧
        before.storeFile = root.storeFile)
      (recoverPaths ((root.interrupted active).map entryPath))
      (fun paths before => (Trail codec root store retain [] store before ∧
        before.storeFile = root.storeFile) ∧ paths ⊆ (root.interrupted active).map entryPath)
      (fun before => Trail codec root store retain [] store before ∧
        before.storeFile = root.storeFile) := by
    refine recoverPaths_keeps fun path hpath other hother before h hpinned hpresent => ?_
    obtain ⟨name, hname, rfl⟩ := List.mem_map.mp hpath
    rw [entryOfPath_entryPath (hentries name hname).1] at hother
    obtain rfl := Option.some.inj hother
    rw [generationIsPinned_entryPath (hentries name hname).1,
      h.1.shrinks.pinState hpresent] at hpinned
    have hswept : name ∈ root.swept active retain :=
      List.mem_append_left _ (mem_recovered.mpr ⟨hname, by simp [hpinned]⟩)
    obtain ⟨hgut, hremove⟩ := h.1.deleted hswept
    exact ⟨⟨hgut, h.2⟩, hremove, h.2⟩
  refine Triple.seq (fun paths before => Trail codec root store retain (root.recovered active) store
      before ∧ paths = (root.recovered active).map entryPath) ?_ fun paths =>
    .given fun hpaths => ?_
  · refine ⟨fun before paths after h hreturns => ?_, fun before after h hcut => ?_⟩
    · subst h
      obtain ⟨-, hpaths, hafter⟩ :=
        (recoverPaths_returns hentries (hledger.interrupted_nodup hopened.file)).mp hreturns
      have hkeeps := (hloop.returns _ _ _ ⟨hstart, rfl⟩ hreturns).1.1
      refine ⟨{ hkeeps with gone := fun name hname => ?_ }, hpaths⟩
      have hmem : name ∈ (before.interrupted active).filter before.gone := hname
      rw [hafter, entry_removeAll, if_pos hmem]
    · subst h
      obtain ⟨htrail, hfile⟩ := hloop.cuts _ _ ⟨hstart, rfl⟩ hcut
      exact ⟨[], store, htrail, .inr hfile⟩
  · subst hpaths
    have hmidway : ∀ result after, Trail codec root store retain (root.recovered active) result
        after → Midway codec root store retain after := fun _ _ h => ⟨_, _, h, .inl rfl⟩
    split
    next => exact .pure fun before h => ⟨⟨h, rfl⟩, hmidway _ _ h⟩
    next hsome =>
      have hwrites : root.recovered active ≠ [] := fun h => hsome (by rw [h]; rfl)
      have hrecord := @trail_record _ codec env root store store retain (root.recovered active)
        (root.recovered active) _ _ recordable_recovery
        (fun name hname => (recovered_name hledger hopened hname).1) hwrites
        fun h => absurd h (by decide)
      refine (hrecord.weaken (fun _ h => h) (fun _ _ h => h) fun _ h => ?_).bind fun _ =>
        .pure fun _ h => ⟨⟨h, rfl⟩, hmidway _ _ h⟩
      obtain ⟨result, htrail⟩ := h
      exact hmidway _ _ htrail

/-- What a crash leaves of a collection. -/
theorem midway_of_cut (hcut : Cut (gcAdapterGenerations codec envs retain false) root after) :
    Midway codec root store retain after := by
  have hstart : ∀ before, before = root → Midway codec root store retain before := by
    rintro _ rfl
    exact ⟨[], store, .start hledger hopened, .inr rfl⟩
  have hrun : Triple (fun before => before = root) (gcAdapterGenerations codec envs retain false)
      (fun _ => Midway codec root store retain) (Midway codec root store retain) := by
    refine Triple.seq (fun found before => before = root ∧ found = store)
      (.read (fun before found h hfound => ⟨h, ?_⟩) hstart) fun found => .given fun hfound => ?_
    · subst h
      exact hopened.unique hfound rfl
    subst hfound
    refine Triple.seq (fun summary before => before = root ∧ generationDirectorySummary root.disk
        found.activeGenerationPath = some summary)
      (.read (fun before summary h hsummary => ⟨h, h ▸ hsummary⟩) hstart) fun summary =>
        .given fun hsummary => ?_
    refine Triple.seq (fun classes before => before = root ∧
        classifyGenerations root retain summary = some classes)
      (.read (fun before classes h hclasses => ⟨h, h ▸ hclasses⟩) hstart) fun classes =>
        .given fun hclasses => ?_
    have hclassified := classifyGenerations_eq_some
      (generationDirectorySummary_eq_some.mp hsummary).2 hclasses
    obtain ⟨names, hreclaimable, hperm⟩ :=
      exists_names hclassified.reclaimable fun name hname => doomed_name hname
    have hmidway : ∀ after, (∃ result, Trail codec root found retain
        (root.recovered found.activeGenerationPath) result after) →
        Midway codec root found retain after := fun _ ⟨_, h⟩ => ⟨_, _, h, .inl rfl⟩
    dsimp only
    rw [if_neg Bool.false_ne_true, hreclaimable]
    refine (trail_recover hledger hopened).bind fun result => .given fun hpaths => ?_
    split
    next => exact .pure fun after h => ⟨hmidway _ ⟨_, h⟩, hmidway _ ⟨_, h⟩⟩
    next hsome =>
      have hwrites : names ≠ [] := fun h => hsome (by rw [h]; rfl)
      rw [hpaths]
      have hreclaim := @trail_reclaim _ codec envs root found result.1 retain
        (root.recovered found.activeGenerationPath) names hperm hwrites
        fun name hname => (recovered_name hledger hopened hname).1
      exact (hreclaim.weaken (fun _ h => h) (fun _ _ h => hmidway _ h) hmidway).bind fun _ =>
        .pure fun _ h => ⟨h, h⟩
  exact hrun.cuts _ _ rfl hcut

end Run

end OrdinalDB.Store
